import BlockSketch.Serial.Device

/-
A short-lived memory of the devices found. A list that is still fresh is given again without
looking; an empty one is never kept, and the common names are offered in its place.
-/
namespace BlockSketch

/-- Milliseconds on a clock that does not run backwards. -/
abbrev Instant := Nat

structure DeviceListing where
  devices : List SerialDevice
  cached : Bool
  /-- Nothing was found, and these are common names. -/
  fallback : Bool
  deriving DecidableEq, Repr

def DeviceListing.toJson (l : DeviceListing) : Json :=
  .object [("ports", .array (l.devices.map SerialDevice.toJson)), ("cached", .bool l.cached),
    ("fallback", .bool l.fallback)]

structure Sighting where
  devices : List SerialDevice
  time : Instant
  deriving DecidableEq, Repr

structure DeviceCache where
  platform : Platform
  /-- How long a list stays fresh, in milliseconds. -/
  lifetime : Nat
  last : Option Sighting
  deriving DecidableEq, Repr

namespace DeviceCache

def new (platform : Platform) (lifetime : Nat) : DeviceCache := ⟨platform, lifetime, none⟩

def fresh? (c : DeviceCache) (now : Instant) : Option (List SerialDevice) :=
  match c.last with
  | some s => if now - s.time < c.lifetime && !s.devices.isEmpty then some s.devices else none
  | none => none

def remember (c : DeviceCache) (devices : List SerialDevice) (now : Instant) :
    DeviceListing × DeviceCache :=
  let devices := SerialDevice.normalize devices
  if devices.isEmpty then (⟨c.platform.commonDevices, false, true⟩, { c with last := none })
  else (⟨devices, false, false⟩, { c with last := some ⟨devices, now⟩ })

/-- A request at `asked`. Only if it has to look is the search run, which gives what it found and
when it ended. -/
def listWith {m : Type → Type} [Monad m] (c : DeviceCache) (asked : Instant)
    (search : m (List SerialDevice × Instant)) : m (DeviceListing × DeviceCache) :=
  match c.fresh? asked with
  | some known => pure (⟨known, true, false⟩, c)
  | none => do
    let (devices, ended) ← search
    return c.remember devices ended

def list (c : DeviceCache) (asked : Instant) (devices : List SerialDevice) (ended : Instant) :
    DeviceListing × DeviceCache :=
  Id.run (c.listWith asked (pure (devices, ended)))

end DeviceCache
end BlockSketch

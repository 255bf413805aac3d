import BlockSketch.Serial.Cache

/-
Requests for the list of devices, one after another. What the cache holds is decided by the last
search: what that found, or nothing if it found nothing. So a list is given again only if the last
search found it and not too much time has passed since; all other requests look anew.
-/
namespace BlockSketch

structure DeviceCall where
  asked : Instant
  found : List SerialDevice
  ended : Instant

namespace DeviceCall

def devices (call : DeviceCall) : List SerialDevice := SerialDevice.normalize call.found

def search (call : DeviceCall) : StateM Nat (List SerialDevice × Instant) := do
  modify (· + 1)
  return (call.found, call.ended)

end DeviceCall

structure DeviceReply where
  call : DeviceCall
  listing : DeviceListing
  searches : Nat

def LastSearch (past : List DeviceReply) (p : DeviceReply) : Prop :=
  ∃ earlier between, past = earlier ++ p :: between ∧ 0 < p.searches ∧ ∀ q ∈ between, q.searches = 0

structure Reusable (lifetime : Nat) (past : List DeviceReply) (now : Instant)
    (p : DeviceReply) : Prop where
  last : LastSearch past p
  found : p.call.devices ≠ []
  fresh : now - p.call.ended < lifetime

theorem lastSearch_iff {past : List DeviceReply} {p : DeviceReply} :
    LastSearch past p ↔ past.reverse.find? (fun r => 0 < r.searches) = some p := by
  rw [List.find?_eq_some_iff_append]
  constructor
  · rintro ⟨earlier, between, split, searched, none⟩
    refine ⟨by simpa using searched, between.reverse, earlier.reverse, by simp [split], ?_⟩
    intro q member
    simp [none q (List.mem_reverse.mp member)]
  · rintro ⟨searched, later, earlier, split, none⟩
    refine ⟨earlier.reverse, later.reverse, ?_, by simpa using searched, ?_⟩
    · have back := congrArg List.reverse split
      simpa using back
    · intro q member
      simpa using none q (List.mem_reverse.mp member)

theorem LastSearch.unique {past : List DeviceReply} {p q : DeviceReply} (first : LastSearch past p)
    (second : LastSearch past q) : p = q := by
  rw [lastSearch_iff] at first second
  exact Option.some.inj (first.symm.trans second)

theorem not_lastSearch_nil (p : DeviceReply) : ¬ LastSearch [] p := by
  simp [lastSearch_iff]

theorem lastSearch_searched {past : List DeviceReply} {r p : DeviceReply}
    (searched : 0 < r.searches) : LastSearch (past ++ [r]) p ↔ r = p := by
  simp [lastSearch_iff, searched]

theorem lastSearch_reused {past : List DeviceReply} {r p : DeviceReply} (reused : r.searches = 0) :
    LastSearch (past ++ [r]) p ↔ LastSearch past p := by
  simp [lastSearch_iff, reused]

namespace DeviceCache

def reply (c : DeviceCache) (call : DeviceCall) : DeviceReply × DeviceCache :=
  let ((listing, next), searches) := (c.listWith call.asked call.search).run 0
  (⟨call, listing, searches⟩, next)

def replies (c : DeviceCache) : List DeviceCall → List DeviceReply
  | [] => []
  | call :: rest => (c.reply call).1 :: (c.reply call).2.replies rest

theorem reply_call (c : DeviceCache) (call : DeviceCall) : (c.reply call).1.call = call := rfl

theorem reply_reused {c : DeviceCache} {call : DeviceCall} {known : List SerialDevice}
    (fresh : c.fresh? call.asked = some known) :
    c.reply call = (⟨call, ⟨known, true, false⟩, 0⟩, c) := by
  unfold reply listWith
  rw [fresh]
  rfl

theorem reply_searched {c : DeviceCache} {call : DeviceCall} (stale : c.fresh? call.asked = none) :
    c.reply call = (⟨call, (c.remember call.found call.ended).1, 1⟩,
      (c.remember call.found call.ended).2) := by
  unfold reply listWith
  rw [stale]
  rfl

structure Reflects (platform : Platform) (lifetime : Nat) (past : List DeviceReply)
    (c : DeviceCache) : Prop where
  platform : c.platform = platform
  lifetime : c.lifetime = lifetime
  last : ∀ s, c.last = some s ↔
    ∃ p, LastSearch past p ∧ p.call.devices ≠ [] ∧ s = ⟨p.call.devices, p.call.ended⟩

section Step

variable {platform : Platform} {lifetime : Nat} {past : List DeviceReply} {c : DeviceCache}

theorem reflects_new : Reflects platform lifetime [] (new platform lifetime) := by
  constructor
  · rfl
  · rfl
  · intro s
    simp [new, not_lastSearch_nil]

theorem fresh_iff (reflects : Reflects platform lifetime past c) (now : Instant)
    (known : List SerialDevice) :
    c.fresh? now = some known ↔ ∃ p, Reusable lifetime past now p ∧ known = p.call.devices := by
  unfold fresh?
  constructor
  · intro given
    cases held : c.last with
    | none => simp [held] at given
    | some s =>
      obtain ⟨p, last, found, rfl⟩ := (reflects.last s).mp held
      simp only [held, Bool.and_eq_true, decide_eq_true_eq, Option.ite_none_right_eq_some] at given
      obtain ⟨⟨fresh, -⟩, same⟩ := given
      exact ⟨p, ⟨last, found, reflects.lifetime ▸ fresh⟩, (Option.some.inj same).symm⟩
  · rintro ⟨p, reusable, rfl⟩
    have held := (reflects.last _).mpr ⟨p, reusable.last, reusable.found, rfl⟩
    have fresh := reusable.fresh
    simp [held, reflects.lifetime, fresh, reusable.found]

theorem remember_eq (c : DeviceCache) (call : DeviceCall) :
    c.remember call.found call.ended =
      if call.devices = [] then (⟨c.platform.commonDevices, false, true⟩, { c with last := none })
      else (⟨call.devices, false, false⟩, { c with last := some ⟨call.devices, call.ended⟩ }) := by
  unfold remember DeviceCall.devices
  simp only [List.isEmpty_iff]

theorem reflects_reply (reflects : Reflects platform lifetime past c) (call : DeviceCall) :
    Reflects platform lifetime (past ++ [(c.reply call).1]) (c.reply call).2 := by
  cases known : c.fresh? call.asked with
  | some devices =>
    rw [reply_reused known]
    refine ⟨reflects.platform, reflects.lifetime, ?_⟩
    intro s
    rw [reflects.last s]
    simp only [lastSearch_reused]
  | none =>
    rw [reply_searched known, remember_eq]
    split
    · rename_i nothing
      refine ⟨reflects.platform, reflects.lifetime, ?_⟩
      intro s
      simp [lastSearch_searched, nothing]
    · rename_i found
      refine ⟨reflects.platform, reflects.lifetime, ?_⟩
      intro s
      constructor
      · intro same
        exact ⟨_, (lastSearch_searched Nat.one_pos).mpr rfl, found, (Option.some.inj same).symm⟩
      · rintro ⟨p, last, -, rfl⟩
        rw [← (lastSearch_searched Nat.one_pos).mp last]

end Step

/-! Whole runs -/

theorem replies_calls (c : DeviceCache) (calls : List DeviceCall) :
    (c.replies calls).map (·.call) = calls := by
  induction calls generalizing c with
  | nil => rfl
  | cons call rest ih => simp [replies, reply_call, ih]

theorem reflects_replies {platform : Platform} {lifetime : Nat} {c : DeviceCache}
    {before : List DeviceReply} {calls : List DeviceCall}
    (reflects : Reflects platform lifetime before c) {past later : List DeviceReply}
    {r : DeviceReply} (split : c.replies calls = past ++ r :: later) :
    ∃ reached, Reflects platform lifetime (before ++ past) reached ∧
      r = (reached.reply r.call).1 := by
  induction calls generalizing c before past with
  | nil => simp [replies] at split
  | cons call rest ih =>
    rw [replies] at split
    cases past with
    | nil =>
      obtain ⟨rfl, -⟩ := List.cons.inj split
      exact ⟨c, by simpa using reflects, rfl⟩
    | cons first past =>
      obtain ⟨rfl, remaining⟩ := List.cons.inj split
      obtain ⟨reached, known, same⟩ := ih (reflects_reply reflects call) remaining
      exact ⟨reached, by simpa using known, same⟩

inductive Outcome (platform : Platform) (lifetime : Nat) (past : List DeviceReply) :
    DeviceReply → Prop where
  | reused {call : DeviceCall} {p : DeviceReply} (reusable : Reusable lifetime past call.asked p) :
      Outcome platform lifetime past ⟨call, ⟨p.call.devices, true, false⟩, 0⟩
  | found {call : DeviceCall} (stale : ¬ ∃ p, Reusable lifetime past call.asked p)
      (any : call.devices ≠ []) :
      Outcome platform lifetime past ⟨call, ⟨call.devices, false, false⟩, 1⟩
  | nothing {call : DeviceCall} (stale : ¬ ∃ p, Reusable lifetime past call.asked p)
      (none : call.devices = []) :
      Outcome platform lifetime past ⟨call, ⟨platform.commonDevices, false, true⟩, 1⟩

theorem outcome_reply {platform : Platform} {lifetime : Nat} {past : List DeviceReply}
    {c : DeviceCache} (reflects : Reflects platform lifetime past c) (call : DeviceCall) :
    Outcome platform lifetime past (c.reply call).1 := by
  cases known : c.fresh? call.asked with
  | some devices =>
    obtain ⟨p, reusable, rfl⟩ := (fresh_iff reflects call.asked devices).mp known
    rw [reply_reused known]
    exact Outcome.reused reusable
  | none =>
    have stale : ¬ ∃ p, Reusable lifetime past call.asked p := by
      rintro ⟨p, reusable⟩
      rw [(fresh_iff reflects call.asked p.call.devices).mpr ⟨p, reusable, rfl⟩] at known
      cases known
    rw [reply_searched known, remember_eq, reflects.platform]
    split
    · exact Outcome.nothing stale ‹_›
    · exact Outcome.found stale ‹_›

theorem outcome_of_split {platform : Platform} {lifetime : Nat} {calls : List DeviceCall}
    {past later : List DeviceReply} {r : DeviceReply}
    (split : (new platform lifetime).replies calls = past ++ r :: later) :
    Outcome platform lifetime past r := by
  obtain ⟨c, reflects, same⟩ := reflects_replies reflects_new split
  rw [same]
  exact outcome_reply reflects r.call

end DeviceCache

/-! What every reply offers -/

/-- A list that is given again was the reply to the request that found it. -/
theorem Reusable.source {platform : Platform} {lifetime : Nat} {calls : List DeviceCall}
    {past later : List DeviceReply} {r p : DeviceReply} {now : Instant}
    (reusable : Reusable lifetime past now p)
    (split : (DeviceCache.new platform lifetime).replies calls = past ++ r :: later) :
    ∃ q ∈ past, q.searches = 1 ∧ q.listing = ⟨p.call.devices, false, false⟩ := by
  obtain ⟨earlier, between, rfl, searched, -⟩ := reusable.last
  have found := reusable.found
  rw [List.append_assoc, List.cons_append] at split
  refine ⟨p, by simp, ?_⟩
  cases DeviceCache.outcome_of_split split with
  | reused _ => exact absurd searched (Nat.lt_irrefl 0)
  | found _ _ => exact ⟨rfl, rfl⟩
  | nothing _ none => exact absurd none found

theorem firstOfEach_serial {d : SerialDevice} (serial : SerialDevice.isSerialPath d.path = true)
    (rest : List SerialDevice) : SerialDevice.firstOfEach [] (d :: rest) ≠ [] := by
  simp [SerialDevice.firstOfEach, serial]

theorem normalize_ne_nil {d : SerialDevice} (serial : SerialDevice.isSerialPath d.path = true)
    (rest : List SerialDevice) : SerialDevice.normalize (d :: rest) ≠ [] := by
  intro empty
  have length := congrArg List.length empty
  rw [SerialDevice.normalize, List.length_mergeSort, List.length_nil, List.length_eq_zero_iff]
    at length
  exact firstOfEach_serial serial rest length

theorem commonDevices_ne_nil (platform : Platform) : platform.commonDevices ≠ [] := by
  cases platform with
  | windows => simp [Platform.commonDevices]
  | posix => exact normalize_ne_nil (d := ⟨"/dev/ttyUSB0", _, _⟩) (by decide +kernel) _

namespace DeviceCache

/-- A list is given again exactly as long as the last search found it and its time is not over.
Every other request makes a search of its own, and the common names are offered only if that finds
nothing. -/
theorem replies_follow_last_search (platform : Platform) (lifetime : Nat)
    (calls : List DeviceCall) :
    let replies := (new platform lifetime).replies calls
    replies.map (·.call) = calls ∧
    ∀ past r later, replies = past ++ r :: later →
      (r.listing.cached = true ↔ ∃ p, Reusable lifetime past r.call.asked p) ∧
      (∀ p, Reusable lifetime past r.call.asked p →
        r.searches = 0 ∧ r.listing = ⟨p.call.devices, true, false⟩) ∧
      ((¬ ∃ p, Reusable lifetime past r.call.asked p) →
        r.searches = 1 ∧ r.listing = if r.call.devices = []
        then ⟨platform.commonDevices, false, true⟩
          else ⟨r.call.devices, false, false⟩) ∧
      (r.listing.cached = true → ∃ p ∈ past, p.searches = 1 ∧
        p.listing = ⟨r.listing.devices, false, false⟩) ∧
      ¬ (r.listing.cached = true ∧ r.listing.fallback = true) ∧
      r.listing.devices ≠ [] := by
  intro replies
  refine ⟨replies_calls _ calls, ?_⟩
  intro past r later split
  cases outcome_of_split split with
  | reused reusable =>
    rename_i call p
    have only : ∀ q, Reusable lifetime past call.asked q → q = p := by
      intro q other
      exact other.last.unique reusable.last
    refine ⟨⟨fun _ => ⟨p, reusable⟩, fun _ => rfl⟩, ?_, fun stale => absurd ⟨p, reusable⟩ stale, ?_,
      nofun, reusable.found⟩
    · intro q other
      rw [only q other]
      exact ⟨rfl, rfl⟩
    · intro _
      exact reusable.source split
  | found stale any =>
    refine ⟨⟨nofun, fun known => absurd known stale⟩, fun p reusable => absurd ⟨p, reusable⟩ stale,
      ?_, nofun, nofun, any⟩
    intro _
    rw [if_neg any]
    exact ⟨rfl, rfl⟩
  | nothing stale none =>
    refine ⟨⟨nofun, fun known => absurd known stale⟩, fun p reusable => absurd ⟨p, reusable⟩ stale,
      ?_, nofun, nofun, commonDevices_ne_nil platform⟩
    intro _
    rw [if_pos none]
    exact ⟨rfl, rfl⟩

end DeviceCache
end BlockSketch

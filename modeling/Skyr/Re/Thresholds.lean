import Skyr.Rtq

/-!
# When failures become an incident

For each category there is a rule: so many failures within so much time.  Failures of an entity that
has no open incident of their category are remembered in the memory of the reporting engine, by
their time stamps, until there are enough of them or the entity reports a success.
-/

namespace Skyr.Re

/-- How many failures there have to be within a window, in milliseconds. -/
structure ThresholdRule where
  minReports : ℕ
  window : ℕ
deriving DecidableEq

structure ThresholdConfig where
  badConfiguration : ThresholdRule
  cannotProgress : ThresholdRule
  inconsistentState : ThresholdRule
  systemError : ThresholdRule
  crash : ThresholdRule

namespace ThresholdConfig

/-- The rules unless they are overridden: a crash is an incident at once. -/
def default : ThresholdConfig where
  badConfiguration := ⟨5, 5 * 60 * 1000⟩
  cannotProgress := ⟨5, 5 * 60 * 1000⟩
  inconsistentState := ⟨3, 2 * 60 * 1000⟩
  systemError := ⟨3, 60 * 1000⟩
  crash := ⟨1, 60 * 60 * 1000⟩

def ruleFor (c : ThresholdConfig) : IncidentCategory → ThresholdRule
  | .badConfiguration => c.badConfiguration
  | .cannotProgress => c.cannotProgress
  | .inconsistentState => c.inconsistentState
  | .systemError => c.systemError
  | .crash => c.crash

end ThresholdConfig

/-- The time stamps of failures that have not become an incident, the oldest first.  An entity that
is not known has none. -/
abbrev ThresholdTracker := String → IncidentCategory → List ℕ

namespace ThresholdTracker

def new : ThresholdTracker := fun _ _ => []

def set (t : ThresholdTracker) (entityQid : String) (category : IncidentCategory)
    (times : List ℕ) : ThresholdTracker :=
  fun e c => if e = entityQid ∧ c = category then times else t e c

/-- The failures that count: those at the front that are too old are dropped, and the new one is
put at the end. -/
def recorded (t : ThresholdTracker) (entityQid : String) (category : IncidentCategory)
    (rule : ThresholdRule) (reportAt now : ℕ) : List ℕ :=
  (t entityQid category).dropWhile (fun at_ => at_ + rule.window < now) ++ [reportAt]

/-- Whether there are enough failures now; if so, they are forgotten. -/
def recordAndCheck (t : ThresholdTracker) (entityQid : String) (category : IncidentCategory)
    (rule : ThresholdRule) (reportAt now : ℕ) : Bool × ThresholdTracker :=
  let times := t.recorded entityQid category rule reportAt now
  if rule.minReports ≤ times.length then (true, t.set entityQid category [])
  else (false, t.set entityQid category times)

/-- The call with the subtraction of the window from the processing time, which panics if it leads to
before the first instant of the calendar. -/
def recordAndCheck? (t : ThresholdTracker) (entityQid : String) (category : IncidentCategory)
    (rule : ThresholdRule) (reportAt now : ℕ) : Option (Bool × ThresholdTracker) :=
  if rule.window ≤ now + 8334601228800000 then
    some (t.recordAndCheck entityQid category rule reportAt now)
  else none

def forgetEntity (t : ThresholdTracker) (entityQid : String) : ThresholdTracker :=
  Function.update t entityQid fun _ => []

@[simp] theorem forgetEntity_self (t : ThresholdTracker) (e : String) :
    t.forgetEntity e e = fun _ => [] :=
  Function.update_self ..

/-- A rule that one more failure did not meet is not met by one failure alone. -/
theorem recordAndCheck_of_nil {t t' : ThresholdTracker} {e : String} {c : IncidentCategory}
    {rule : ThresholdRule} {reportAt now now' : ℕ}
    (h : (t.recordAndCheck e c rule reportAt now).1 = false) (ht' : t' e c = []) :
    (t'.recordAndCheck e c rule reportAt now').1 = false := by
  have hmin : ¬ rule.minReports ≤ (t.recorded e c rule reportAt now).length := by
    intro hle
    rw [recordAndCheck, if_pos hle] at h
    exact nomatch h
  have hlen : 1 ≤ (t.recorded e c rule reportAt now).length := by
    rw [recorded, List.length_append, List.length_singleton]
    exact Nat.le_add_left ..
  have hone : (t'.recorded e c rule reportAt now').length = 1 := by
    rw [recorded, ht']
    rfl
  rw [recordAndCheck, if_neg (by rw [hone]; omega)]

end ThresholdTracker

/-! ## Runs of one entity and category

Failures are dropped from the front of the queue only.  One that arrives late stands behind a later
one, and is still counted there when it has become too old. -/

/-- A failure is processed, stamped with a time of its own, or the entity is forgotten. -/
inductive Event where
  | report (reportAt now : ℕ)
  | forget

/-- The tracker, the time stamps since the last trip or reset, and the last processing time. -/
structure Watched where
  tracker : ThresholdTracker
  since : List ℕ
  now : ℕ

namespace Watched

variable (e : String) (c : IncidentCategory) (rule : ThresholdRule)

def start : Watched := ⟨.new, [], 0⟩

/-- What a call reports, unless it panics. -/
def trips (w : Watched) (reportAt now : ℕ) : Option Bool :=
  (w.tracker.recordAndCheck? e c rule reportAt now).map Prod.fst

def step (w : Watched) : Event → Watched
  | .report reportAt now =>
    match w.tracker.recordAndCheck? e c rule reportAt now with
    | some (true, tracker) => ⟨tracker, [], now⟩
    | some (false, tracker) => ⟨tracker, w.since ++ [reportAt], now⟩
    | none => { w with now }
  | .forget => ⟨w.tracker.forgetEntity e, [], w.now⟩

/-- What a run with events of a kind leads to. -/
inductive Reached (P : Watched → Event → Prop) : Watched → Prop where
  | start : Reached P start
  | step {w : Watched} {ev : Event} : Reached P w → P w ev → Reached P (w.step e c rule ev)

/-- As many failures since the last trip or reset as the rule asks for lie in the window before the
processing time. -/
def Due (w : Watched) (reportAt now : ℕ) : Prop :=
  rule.minReports ≤ (w.since ++ [reportAt]).countP fun at_ => at_ ≤ now ∧ now ≤ at_ + rule.window

/-- Processing times do not decrease. -/
def InTime (w : Watched) : Event → Prop
  | .report _ now => w.now ≤ now
  | .forget => True

/-- A failure is also stamped within the window, and not before an earlier one since the last trip
or reset.  The window does not begin before the calendar does. -/
def InOrder (w : Watched) : Event → Prop
  | .report reportAt now => w.now ≤ now ∧ reportAt ≤ now ∧ now ≤ reportAt + rule.window ∧
    (∀ at_ ∈ w.since, at_ ≤ reportAt) ∧ rule.window ≤ now + 8334601228800000
  | .forget => True

instance (w : Watched) : ∀ ev, Decidable (w.InOrder rule ev)
  | .report .. => inferInstanceAs (Decidable (_ ∧ _))
  | .forget => inferInstanceAs (Decidable True)

/-- The tracker remembers the failures that are not too old, and they are in order. -/
structure Faithful (w : Watched) : Prop where
  tracker : w.tracker e c = w.since.filter (w.now ≤ · + rule.window)
  sorted : w.since.Pairwise (· ≤ ·)
  past : ∀ at_ ∈ w.since, at_ ≤ w.now

variable {e c rule} {w : Watched} {reportAt now : ℕ}

/-- In a list in order, no time stamp is too old once one is not. -/
theorem dropWhile_eq_filter {times : List ℕ} (h : times.Pairwise (· ≤ ·)) :
    times.dropWhile (· + rule.window < now) = times.filter (now ≤ · + rule.window) := by
  induction times with
  | nil => rfl
  | cons t times ih =>
  obtain ⟨hle, h⟩ := List.pairwise_cons.1 h
  by_cases ht : t + rule.window < now
  · simpa [ht] using ih h
  have hall : ∀ a ∈ times, now ≤ a + rule.window := fun a ha => by have := hle a ha; omega
  rw [List.filter_eq_self.2 (by simpa using ⟨Nat.le_of_not_lt ht, hall⟩)]
  simp [ht]

theorem Faithful.recorded (h : w.Faithful e c rule)
    (hev : w.InOrder rule (.report reportAt now)) : w.tracker.recorded e c rule reportAt now =
      (w.since ++ [reportAt]).filter (now ≤ · + rule.window) := by
  obtain ⟨hnow, -, hin, -⟩ := hev
  rw [ThresholdTracker.recorded, h.tracker, dropWhile_eq_filter (h.sorted.filter _),
    List.filter_filter, List.filter_append, List.filter_cons_of_pos (by simpa using hin)]
  congr 1
  exact List.filter_congr fun at_ _ => by simp; omega

theorem Faithful.length_recorded (h : w.Faithful e c rule)
    (hev : w.InOrder rule (.report reportAt now)) :
    (w.tracker.recorded e c rule reportAt now).length =
      (w.since ++ [reportAt]).countP fun at_ => at_ ≤ now ∧ now ≤ at_ + rule.window := by
  rw [h.recorded hev, ← List.countP_eq_length_filter]
  refine List.countP_congr fun at_ hat => ?_
  have hpast : at_ ≤ now := by
    rcases List.mem_append.1 hat with hat | hat
    · exact (h.past at_ hat).trans hev.1
    · exact List.mem_singleton.1 hat ▸ hev.2.1
  simp [hpast]

theorem Faithful.trips_iff (h : w.Faithful e c rule) (hev : w.InOrder rule (.report reportAt now)) :
    ∃ b, w.trips e c rule reportAt now = some b ∧ (b = true ↔ w.Due rule reportAt now) := by
  refine ⟨_, by rw [trips, ThresholdTracker.recordAndCheck?, if_pos hev.2.2.2.2]; rfl, ?_⟩
  rw [Due, ← h.length_recorded hev, ThresholdTracker.recordAndCheck]
  split <;> simp_all

theorem Faithful.step (h : w.Faithful e c rule) {ev : Event} (hev : w.InOrder rule ev) :
    (w.step e c rule ev).Faithful e c rule := by
  cases ev with
  | forget => exact ⟨by simp [Watched.step], .nil, by simp [Watched.step]⟩
  | report reportAt now =>
  simp only [Watched.step, ThresholdTracker.recordAndCheck?, if_pos hev.2.2.2.2,
    ThresholdTracker.recordAndCheck]
  split_ifs with hmin
  · exact ⟨by simp [ThresholdTracker.set], .nil, by simp⟩
  refine ⟨by simp [ThresholdTracker.set, h.recorded hev], ?_, fun at_ hat => ?_⟩
  · exact List.pairwise_append.2 ⟨h.sorted, List.pairwise_singleton ..,
      by simpa using hev.2.2.2.1⟩
  rcases List.mem_append.1 hat with hat | hat
  · exact (h.past at_ hat).trans hev.1
  · exact List.mem_singleton.1 hat ▸ hev.2.1

/-- **While failures arrive in order and in time, the threshold trips exactly when enough of them
are in the window.** -/
theorem trips_iff_due (h : Reached e c rule (InOrder rule) w)
    (hev : w.InOrder rule (.report reportAt now)) :
    ∃ b, w.trips e c rule reportAt now = some b ∧ (b = true ↔ w.Due rule reportAt now) := by
  have hw : w.Faithful e c rule := by
    clear hev
    induction h with
    | start => exact ⟨rfl, .nil, by simp [start]⟩
    | step _ hev ih => exact ih.step hev
  exact hw.trips_iff hev

/-- Two failures, of which the first one will have become too old when the fourth one comes. -/
def twoReports : Watched :=
  (start.step "Db" .systemError ⟨3, 10⟩ (.report 90 91)).step "Db" .systemError ⟨3, 10⟩
    (.report 100 100)

def threeReports : Watched := twoReports.step "Db" .systemError ⟨3, 10⟩ (.report 103 104)

theorem fourth_report_trips : threeReports.since = [90, 100, 103] ∧
    threeReports.trips "Db" .systemError ⟨3, 10⟩ 107 107 = some true ∧
    threeReports.Due ⟨3, 10⟩ 107 107 := by
  have h₁ : start.InOrder ⟨3, 10⟩ (.report 90 91) := by decide
  have h₂ : (start.step "Db" .systemError ⟨3, 10⟩ (.report 90 91)).InOrder ⟨3, 10⟩
    (.report 100 100) := by decide
  have h₃ : twoReports.InOrder ⟨3, 10⟩ (.report 103 104) := by decide
  have h₄ : threeReports.InOrder ⟨3, 10⟩ (.report 107 107) := by decide
  obtain ⟨b, htrips, hdue⟩ := trips_iff_due (.step (.step (.step .start h₁) h₂) h₃) h₄
  have hb : b = true := Option.some.inj (htrips.symm.trans (by decide))
  exact ⟨by decide, htrips.trans (congrArg some hb), hdue.1 hb⟩

/-- A failure from 95 that arrives after one from 100 is counted at 107, beyond a window of 10. -/
theorem late_report_trips : ¬∀ (rule : ThresholdRule) (w : Watched), Reached "Db" .systemError rule
    InTime w → ∀ reportAt now, w.InTime (.report reportAt now) →
    ∃ b, w.trips "Db" .systemError rule reportAt now = some b ∧
      (b = true ↔ w.Due rule reportAt now) := by
  intro h
  have h₁ : start.InTime (.report 100 100) := Nat.zero_le _
  have h₂ : (start.step "Db" .systemError ⟨3, 10⟩ (.report 100 100)).InTime (.report 95 101) :=
    Nat.le_succ 100
  obtain ⟨b, htrips, hdue⟩ := h ⟨3, 10⟩ _ (.step (.step .start h₁) h₂) 107 107
    (by decide : 101 ≤ 107)
  have hb : b = true := Option.some.inj (htrips.symm.trans (by decide))
  exact absurd (hdue.1 hb)
    (by decide : ¬3 ≤ [100, 95, 107].countP fun at_ => at_ ≤ 107 ∧ 107 ≤ at_ + 10)

end Watched

end Skyr.Re

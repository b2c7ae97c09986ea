import Skyr.Lib.Threads
import Skyr.World

/-!
# The routing index

The home region keeps an index of the regions its resources live in, `rdb.resource_regions`: a row
per resource and region, with the time stamp of the report it was last written for.  The reporting
engine maintains it.  A terminal report removes the row of its resource, any other report puts it
there; all statements are conditional on the time stamp, so that a report that comes late does no
harm.  The engines read the keys of the index and nothing else.

Reports are handled at the same time by any number of workers and arrive in any order, so the
reporting engine is a machine in the sense of `Lib/Threads` here: a call is a report, a request is
one conditional statement, which is carried out in one piece.

What one wants is that only the report with the latest time stamp counts.  Two things are in the
way of it.  A removed row leaves no time stamp behind, so an `INSERT … IF NOT EXISTS` that comes
after it is carried out however old its report is.  And a report that finds a row goes on with an
`UPDATE … IF updated_at < ?`, which does nothing if the row is removed in between.  A run in which
neither happens (`undisturbed`) ends with the index the latest report alone would have left
(`routing_settles`).
-/

namespace Skyr.Re

/-! ## The table -/

/-- The primary key of `rdb.resource_regions`. -/
structure RegionKey where
  ns : String
  resourceType : String
  name : String
  region : RegionId
deriving DecidableEq

/-- The table, with the column `updated_at` in milliseconds. -/
structure RoutingIndex where
  rows : AList fun _ : RegionKey => ℕ

namespace RoutingIndex

/-- An index without rows. -/
def empty : RoutingIndex := ⟨∅⟩

/-- The time stamp of a row. -/
def row (s : RoutingIndex) (k : RegionKey) : Option ℕ := s.rows.lookup k

def insert (s : RoutingIndex) (k : RegionKey) (updatedAt : ℕ) : RoutingIndex :=
  ⟨s.rows.insert k updatedAt⟩

def erase (s : RoutingIndex) (k : RegionKey) : RoutingIndex := ⟨s.rows.erase k⟩

variable (s : RoutingIndex) {k k' : RegionKey} (t : ℕ)

@[simp] theorem row_insert_self : (s.insert k t).row k = some t := AList.lookup_insert _

@[simp] theorem row_insert_ne (h : k' ≠ k) : (s.insert k t).row k' = s.row k' :=
  AList.lookup_insert_ne h

@[simp] theorem row_erase_self : (s.erase k).row k = none := AList.lookup_erase _ _

@[simp] theorem row_erase_ne (h : k' ≠ k) : (s.erase k).row k' = s.row k' := AList.lookup_erase_ne h

end RoutingIndex

/-! ## Statements -/

/-- The conditional statements. -/
inductive Statement
  | insertIfAbsent (k : RegionKey) (updatedAt : ℕ)
  | updateIfNewer (k : RegionKey) (updatedAt : ℕ)
  | deleteIfOlder (k : RegionKey) (updatedAt : ℕ)
deriving DecidableEq

namespace Statement

def key : Statement → RegionKey
  | insertIfAbsent k _ => k
  | updateIfNewer k _ => k
  | deleteIfOlder k _ => k

/-- What a statement makes of its row.  A comparison with a missing row is false. -/
def effect : Statement → Option ℕ → Option ℕ
  | insertIfAbsent _ t, none => some t
  | insertIfAbsent _ _, some u => some u
  | updateIfNewer _ _, none => none
  | updateIfNewer _ t, some u => if u < t then some t else some u
  | deleteIfOlder _ _, none => none
  | deleteIfOlder _ t, some u => if u < t then none else some u

/-- Carry out a statement, and say whether it was applied. -/
def exec (o : Statement) (s : RoutingIndex) : Bool × RoutingIndex :=
  match o, s.row o.key with
  | insertIfAbsent k t, none => (true, s.insert k t)
  | insertIfAbsent _ _, some _ => (false, s)
  | updateIfNewer k t, some u => if u < t then (true, s.insert k t) else (false, s)
  | updateIfNewer _ _, none => (false, s)
  | deleteIfOlder k t, some u => if u < t then (true, s.erase k) else (false, s)
  | deleteIfOlder _ _, none => (false, s)

/-- A statement changes its own row only. -/
theorem row_exec (o : Statement) (s : RoutingIndex) (k : RegionKey) :
    (o.exec s).2.row k = if o.key = k then o.effect (s.row k) else s.row k := by
  by_cases hk : o.key = k
  · subst hk
    rw [if_pos rfl]
    cases o with
    | insertIfAbsent k t => cases h : s.row k <;> simp [exec, key, h, effect]
    | updateIfNewer k t | deleteIfOlder k t =>
    cases h : s.row k with
    | none => simp [exec, key, h, effect]
    | some u => by_cases hu : u < t <;> simp [exec, key, h, hu, effect]
  rw [if_neg hk]
  cases o with
  | insertIfAbsent k' t =>
    have hne : k ≠ k' := Ne.symm hk
    cases h : s.row k' <;> simp [exec, key, h, hne]
  | updateIfNewer k' t | deleteIfOlder k' t =>
  have hne : k ≠ k' := Ne.symm hk
  cases h : s.row k' with
  | none => simp [exec, key, h]
  | some u => by_cases hu : u < t <;> simp [exec, key, h, hu, hne]

end Statement

/-- The reply to a statement: an error, or the flag that says whether it was applied, if the client
can read it. -/
@[reducible] def Flag : Statement → Type := fun _ => Except String (Option Bool)

/-- The table, as the meaning of statements. -/
def RoutingIndex.sem : Sem Flag RoutingIndex where
  Ans _ := Reply
  act o reply s := reply.answer (fun cut s =>
    ((if cut.isNone then some (o.exec s).1 else none), (o.exec s).2)) s

namespace RoutingIndex

variable {o : Statement} {reply : Reply} {s : RoutingIndex} {k : RegionKey}

variable {r : Flag o} {s' : RoutingIndex} (ha : sem.act o reply s = (r, s'))

include ha

/-- Whatever is replied to a statement, its row is as before or as the statement makes it. -/
theorem row_act :
    s'.row k = if reply.applied ∧ o.key = k then o.effect (s.row k) else s.row k := by
  obtain ⟨rfl, rfl⟩ := Prod.ext_iff.1 ha
  change (Reply.answer reply _ s).2.row k = _
  cases reply with
  | done cut =>
    change (o.exec s).2.row k = _
    rw [Statement.row_exec]
    simp [Reply.applied]
  | error applied msg =>
  cases applied with
  | true =>
    change (o.exec s).2.row k = _
    rw [Statement.row_exec]
    simp [Reply.applied]
  | false => simp [Reply.answer, Reply.applied]

theorem row_act_ne (h : o.key ≠ k) : s'.row k = s.row k := by
  rw [row_act ha, if_neg fun h' => h h'.2]

/-- A statement that is answered was carried out. -/
theorem row_act_of_ok {flag : Option Bool} (h : r = .ok flag) (hk : o.key = k) :
    s'.row k = o.effect (s.row k) := by
  obtain ⟨rfl, rfl⟩ := Prod.ext_iff.1 ha
  cases reply with
  | done cut => rw [row_act ha, if_pos ⟨rfl, hk⟩]
  | error applied msg => cases h

end RoutingIndex

/-! ## The reporting engine -/

/-- What a report about a resource says to the index. -/
structure RegionReport where
  key : RegionKey
  timestamp : ℕ
  /-- The resource has been destroyed. -/
  terminal : Bool
deriving DecidableEq

/-- Send a statement; an error ends the program. -/
def statement (o : Statement) : Prog Flag String (Option Bool) :=
  .ask o fun r => match r with
    | .ok applied => .ret applied
    | .error e => .fail e

def setResourceRegion (k : RegionKey) (updatedAt : ℕ) : Prog Flag String Unit := do
  let applied ← statement (.insertIfAbsent k updatedAt)
  if applied = some true then
    return ()
  else
    let _ ← statement (.updateIfNewer k updatedAt)

def deleteResourceRegion (k : RegionKey) (updatedAt : ℕ) : Prog Flag String Unit := do
  let _ ← statement (.deleteIfOlder k updatedAt)

/-- The part of `process_report` that maintains the index. -/
def maintainIndex (r : RegionReport) : Prog Flag String Unit :=
  if r.terminal then deleteResourceRegion r.key r.timestamp
  else setResourceRegion r.key r.timestamp

/-- The reporting engine: reports are handled side by side. -/
def reporting : Machine Flag String RoutingIndex RegionReport Empty where
  sem := RoutingIndex.sem
  body := maintainIndex
  outside e := e.elim

/-- What a report makes of a row when no other one is handled. -/
def RegionReport.settle (r : RegionReport) (row : Option ℕ) : Option ℕ :=
  if r.terminal then (Statement.deleteIfOlder r.key r.timestamp).effect row
  else (Statement.updateIfNewer r.key r.timestamp).effect
    ((Statement.insertIfAbsent r.key r.timestamp).effect row)

/-! ## How far a report has come -/

abbrev Entry : Type := Σ o, Flag o

/-- The statement a report may send next. -/
def Next (c : RegionReport) (l : Prog.Log Flag) (o : Statement) : Prop :=
  (c.terminal = true ∧ l = [] ∧ o = .deleteIfOlder c.key c.timestamp) ∨
  (c.terminal = false ∧ l = [] ∧ o = .insertIfAbsent c.key c.timestamp) ∨
  (c.terminal = false ∧ (∃ flag, flag ≠ some true ∧
      l = [(⟨.insertIfAbsent c.key c.timestamp, .ok flag⟩ : Entry)]) ∧
    o = .updateIfNewer c.key c.timestamp)

theorem body_next (c : RegionReport) : (reporting.body c).obeys (Next c) (fun _ _ => True) [] := by
  change (maintainIndex c).obeys _ _ _
  rw [maintainIndex]
  split
  · next hc =>
    refine ⟨.inl ⟨hc, rfl, rfl⟩, fun r _ => ?_⟩
    cases r <;> trivial
  next hc =>
  have hc : c.terminal = false := by simpa using hc
  refine ⟨.inr (.inl ⟨hc, rfl, rfl⟩), fun r _ => ?_⟩
  cases r with
  | error e => trivial
  | ok flag =>
  change Prog.obeys _ (if flag = some true then _ else _) _ _
  split
  · trivial
  next hflag =>
  refine ⟨.inr (.inr ⟨hc, ⟨flag, hflag, rfl⟩, rfl⟩), fun r _ => ?_⟩
  cases r <;> trivial

/-- Every statement of the report has been answered. -/
def Complete (c : RegionReport) (l : Prog.Log Flag) : Prop :=
  if c.terminal then ∃ flag, l = [(⟨.deleteIfOlder c.key c.timestamp, .ok flag⟩ : Entry)]
  else l = [(⟨.insertIfAbsent c.key c.timestamp, .ok (some true)⟩ : Entry)] ∨
    ∃ flag flag', l = [(⟨.updateIfNewer c.key c.timestamp, .ok flag'⟩ : Entry),
      (⟨.insertIfAbsent c.key c.timestamp, .ok flag⟩ : Entry)]

/-- The report has found a row and has yet to update it. -/
def Midway (tr : Trace Flag RegionReport) : Prop :=
  tr.running = true ∧ ∃ flag, flag ≠ some true ∧
    tr.log = [(⟨.insertIfAbsent tr.call.key tr.call.timestamp, .ok flag⟩ : Entry)]

/-! ## Runs in which no report gets in the way of another -/

section Runs

variable (k : RegionKey)

/-- No row of `k` is put back for a report older than one that has removed it, and no row of `k` is
removed between the two statements of a report about it. -/
def undisturbed : reporting.Conditions where
  start _ _ := True
  outside _ _ := True
  ask v _ _ o _ :=
    match o with
    | .insertIfAbsent k' t => k' = k → ∀ tr ∈ v.traces, tr.call.key = k → tr.call.terminal = true →
        Complete tr.call tr.log → tr.call.timestamp ≤ t
    | .deleteIfOlder k' _ => k' = k → ∀ tr ∈ v.traces, tr.call.key = k → ¬Midway tr
    | .updateIfNewer _ _ => True

/-- The row is at least as new as `t`. -/
def AtLeast (t : ℕ) (row : Option ℕ) : Prop := ∃ u, row = some u ∧ t ≤ u

variable {k}

/-- A terminal report later than `t` has sent its statement. -/
def Outdated (k : RegionKey) (v : PoolView Flag RoutingIndex RegionReport) (t : ℕ) : Prop :=
  ∃ tr ∈ v.traces, tr.call.key = k ∧ tr.call.terminal = true ∧ tr.log ≠ [] ∧ t < tr.call.timestamp

/-- What the row of `k` has to do with the reports about it so far. -/
structure Tracks (k : RegionKey) (row₀ : Option ℕ)
    (v : PoolView Flag RoutingIndex RegionReport) : Prop where
  /-- Every time stamp comes from somewhere. -/
  source : ∀ t, v.state.row k = some t → row₀ = some t ∨
    ∃ tr ∈ v.traces, tr.call.key = k ∧ tr.call.terminal = false ∧ tr.call.timestamp = t
  /-- What was there at the beginning is still there, unless it was removed. -/
  initial : ∀ t, row₀ = some t → AtLeast t (v.state.row k) ∨ Outdated k v t
  put : ∀ tr ∈ v.traces, tr.call.key = k → tr.call.terminal = false → Complete tr.call tr.log →
    AtLeast tr.call.timestamp (v.state.row k) ∨ Outdated k v tr.call.timestamp
  found : ∀ tr ∈ v.traces, tr.call.key = k → tr.call.terminal = false → Midway tr →
    v.state.row k ≠ none
  /-- What a report has removed has not come back. -/
  removed : ∀ tr ∈ v.traces, tr.call.key = k → tr.call.terminal = true →
    Complete tr.call tr.log → v.state.row k = none ∨ AtLeast tr.call.timestamp (v.state.row k)

variable {row₀ : Option ℕ} {v : PoolView Flag RoutingIndex RegionReport} {i : ℕ}
  {c : RegionReport} {l : Prog.Log Flag}

theorem Outdated.set {t : ℕ} (h : Outdated k v t) (hi : v.traces[i]? = some ⟨c, l, true⟩)
    (e : Entry) (running : Bool) (s : RoutingIndex) :
    Outdated k ⟨s, v.traces.set i ⟨c, e :: l, running⟩⟩ t := by
  obtain ⟨tr, htr, hk, hterm, hlog, ht⟩ := h
  rcases List.mem_set_or_eq hi htr ⟨c, e :: l, running⟩ with hmem | rfl
  · exact ⟨tr, hmem, hk, hterm, hlog, ht⟩
  · exact ⟨_, List.mem_set_of_getElem? hi ⟨c, e :: l, running⟩, hk, hterm, List.cons_ne_nil e l, ht⟩

/-- What a step has to say about the row for the invariant to go through. -/
theorem Tracks.ask (h : Tracks k row₀ v) (hi : v.traces[i]? = some ⟨c, l, true⟩) {e : Entry}
    {running : Bool} {s : RoutingIndex}
    (hsource : ∀ t, s.row k = some t → v.state.row k = some t ∨
      (c.key = k ∧ c.terminal = false ∧ c.timestamp = t))
    (hkeep : ∀ t, AtLeast t (v.state.row k) → AtLeast t (s.row k) ∨
      (c.key = k ∧ c.terminal = true ∧ t < c.timestamp))
    (hput : c.key = k → c.terminal = false → Complete c (e :: l) → AtLeast c.timestamp (s.row k))
    (hfound : v.state.row k ≠ none → (∃ tr ∈ v.traces, tr.call.key = k ∧ Midway tr) →
      s.row k ≠ none)
    (hfound' : c.key = k → c.terminal = false → Midway ⟨c, e :: l, running⟩ → s.row k ≠ none)
    (hremoved : ∀ tr ∈ v.traces, tr.call.key = k → tr.call.terminal = true →
      Complete tr.call tr.log → v.state.row k = none → s.row k = none ∨
        AtLeast tr.call.timestamp (s.row k))
    (hremoved' : c.key = k → c.terminal = true → Complete c (e :: l) →
      s.row k = none ∨ AtLeast c.timestamp (s.row k)) :
    Tracks k row₀ ⟨s, v.traces.set i ⟨c, e :: l, running⟩⟩ := by
  have hself := List.mem_set_of_getElem? hi ⟨c, e :: l, running⟩
  have hold : ∀ t, AtLeast t (v.state.row k) ∨ Outdated k v t → AtLeast t (s.row k) ∨
      Outdated k ⟨s, v.traces.set i ⟨c, e :: l, running⟩⟩ t := by
    rintro t (ht | ht)
    · refine (hkeep t ht).imp_right fun ⟨hk, hterm, hlt⟩ => ?_
      exact ⟨_, hself, hk, hterm, List.cons_ne_nil e l, hlt⟩
    · exact .inr (ht.set hi e running s)
  constructor
  · intro t ht
    rcases hsource t ht with ht | ⟨hk, hterm, rfl⟩
    · refine (h.source t ht).imp_right fun ⟨tr, htr, hk, hterm, hts⟩ => ?_
      rcases List.mem_set_or_eq hi htr ⟨c, e :: l, running⟩ with hmem | rfl
      · exact ⟨tr, hmem, hk, hterm, hts⟩
      · exact ⟨_, hself, hk, hterm, hts⟩
    · exact .inr ⟨_, hself, hk, hterm, rfl⟩
  · exact fun t ht => hold t (h.initial t ht)
  · intro tr htr hk hterm hdone
    rcases List.mem_or_eq_of_mem_set htr with htr | rfl
    · exact hold _ (h.put tr htr hk hterm hdone)
    · exact .inl (hput hk hterm hdone)
  · intro tr htr hk hterm hmid
    rcases List.mem_or_eq_of_mem_set htr with htr | rfl
    · exact hfound (h.found tr htr hk hterm hmid) ⟨tr, htr, hk, hmid⟩
    · exact hfound' hk hterm hmid
  intro tr htr hk hterm hdone
  rcases List.mem_or_eq_of_mem_set htr with htr | rfl
  · rcases h.removed tr htr hk hterm hdone with hnone | hat
    · exact hremoved tr htr hk hterm hdone hnone
    -- The row can only have been removed by a later report, or stay as new.
    cases hrow : s.row k with
    | none => exact .inl rfl
    | some u =>
    rcases hkeep _ hat with hat | ⟨hk', hterm', -⟩
    · exact .inr (hrow ▸ hat)
    rcases hsource u hrow with hu | ⟨-, hlive, -⟩
    · exact .inr (hu ▸ hat)
    · rw [hterm'] at hlive
      cases hlive
  · exact hremoved' hk hterm hdone

theorem not_complete_nil (c : RegionReport) : ¬Complete c [] := by
  rw [Complete]
  split
  · rintro ⟨flag, h⟩
    cases h
  · rintro (h | ⟨flag, flag', h⟩) <;> cases h

theorem reply_eq {o o' : Statement} {r : Flag o} {r' : Flag o'} {l l' : List Entry}
    (h : (⟨o, r⟩ : Entry) :: l = ⟨o', r'⟩ :: l') : r = r' := by
  cases h
  rfl

/-- Steps at which no statement is sent. -/
theorem Tracks.quiet (h : Tracks k row₀ v) {trs : List (Trace Flag RegionReport)}
    (hfwd : ∀ tr ∈ v.traces, ∃ tr' ∈ trs, tr'.call = tr.call ∧ tr'.log = tr.log)
    (hbwd : ∀ tr' ∈ trs, tr'.log = [] ∨ ∃ tr ∈ v.traces, tr'.call = tr.call ∧ tr'.log = tr.log ∧
      (tr'.running = true → tr.running = true)) :
    Tracks k row₀ { v with traces := trs } := by
  have hold : ∀ t, AtLeast t (v.state.row k) ∨ Outdated k v t → AtLeast t (v.state.row k) ∨
      Outdated k { v with traces := trs } t := by
    refine fun t => Or.imp_right ?_
    rintro ⟨tr, htr, hk, hterm, hlog, ht⟩
    obtain ⟨tr', htr', hcall, hlog'⟩ := hfwd tr htr
    exact ⟨tr', htr', by rw [hcall, hk], by rw [hcall, hterm], by rwa [hlog'], by rwa [hcall]⟩
  constructor
  · intro t ht
    refine (h.source t ht).imp_right fun ⟨tr, htr, hk, hterm, hts⟩ => ?_
    obtain ⟨tr', htr', hcall, -⟩ := hfwd tr htr
    exact ⟨tr', htr', by rw [hcall, hk], by rw [hcall, hterm], by rw [hcall, hts]⟩
  · exact fun t ht => hold t (h.initial t ht)
  · intro tr' htr' hk hterm hdone
    rcases hbwd tr' htr' with hnil | ⟨tr, htr, hcall, hlog, -⟩
    · rw [hnil] at hdone
      exact absurd hdone (not_complete_nil _)
    rw [hcall] at hk hterm hdone ⊢
    rw [hlog] at hdone
    exact hold _ (h.put tr htr hk hterm hdone)
  · rintro tr' htr' hk hterm ⟨hrun, flag, hflag, hins⟩
    rcases hbwd tr' htr' with hnil | ⟨tr, htr, hcall, hlog, hrun'⟩
    · rw [hnil] at hins
      cases hins
    rw [hcall] at hk hterm hins
    rw [hlog] at hins
    exact h.found tr htr hk hterm ⟨hrun' hrun, flag, hflag, hins⟩
  intro tr' htr' hk hterm hdone
  rcases hbwd tr' htr' with hnil | ⟨tr, htr, hcall, hlog, -⟩
  · rw [hnil] at hdone
    exact absurd hdone (not_complete_nil _)
  rw [hcall] at hk hterm hdone ⊢
  rw [hlog] at hdone
  exact h.removed tr htr hk hterm hdone

/-! ### The three statements

A handler inserts, updates or deletes the row, each in one statement.  Each statement keeps the row
in step with the reports handled so far. -/

variable {reply : Reply} {running : Bool}

variable {o : Statement}

section

variable {r : Flag o} {s : RoutingIndex} (h : Tracks k row₀ v)
  (ha : RoutingIndex.sem.act o reply v.state = (r, s))

include h ha

/-- A statement about another row. -/
theorem Tracks.other (hi : v.traces[i]? = some ⟨c, l, true⟩)
    (hc : c.key ≠ k) (ho : o.key = c.key) :
    Tracks k row₀ ⟨s, v.traces.set i ⟨c, ⟨o, r⟩ :: l, running⟩⟩ := by
  have hrow : s.row k = v.state.row k := RoutingIndex.row_act_ne ha (ho ▸ hc)
  refine h.ask hi ?_ ?_ (fun hk => absurd hk hc) ?_ (fun hk => absurd hk hc) ?_ fun hk => absurd hk hc
  · rw [hrow]
    exact fun t ht => .inl ht
  · rw [hrow]
    exact fun t ht => .inl ht
  · rw [hrow]
    exact fun hne _ => hne
  · rw [hrow]
    exact fun _ _ _ _ _ hnone => .inl hnone

theorem Tracks.delete (hi : v.traces[i]? = some ⟨c, [], true⟩)
    (hterm : c.terminal = true) (hk : c.key = k)
    (hmid : ∀ tr ∈ v.traces, tr.call.key = k → ¬Midway tr)
    (ho : o = .deleteIfOlder c.key c.timestamp) :
    Tracks k row₀ ⟨s, v.traces.set i ⟨c, [⟨o, r⟩], running⟩⟩ := by
  have hkey : o.key = k := by rw [ho]; exact hk
  have hrow : s.row k = v.state.row k ∨
      (s.row k = none ∧
        ∀ u, v.state.row k = some u → u < c.timestamp) := by
    rw [RoutingIndex.row_act ha]
    split
    · rw [ho]
      cases hs : v.state.row k with
      | none => exact .inl rfl
      | some u =>
      rw [Statement.effect]
      split
      · next hu => exact .inr ⟨rfl, fun _ h => Option.some.inj h ▸ hu⟩
      · exact .inl rfl
    · exact .inl rfl
  refine h.ask hi ?_ ?_ (fun _ hlive => ?_) ?_ (fun _ hlive => ?_) ?_ fun _ _ hdone => ?_
  · intro t ht
    rcases hrow with hrow | ⟨hnone, -⟩
    · exact .inl (hrow ▸ ht)
    · rw [hnone] at ht
      cases ht
  · rintro t ⟨u, hu, htu⟩
    rcases hrow with hrow | ⟨-, hold⟩
    · exact .inl ⟨u, hrow ▸ hu, htu⟩
    · exact .inr ⟨hk, hterm, lt_of_le_of_lt htu (hold u hu)⟩
  · rw [hterm] at hlive
    cases hlive
  · rintro - ⟨tr, htr, htrk, htrm⟩
    exact absurd htrm (hmid tr htr htrk)
  · rw [hterm] at hlive
    cases hlive
  · intro _ _ _ _ _ hnone
    rcases hrow with hrow | ⟨hnone', -⟩
    · exact .inl (hrow.trans hnone)
    · exact .inl hnone'
  rw [Complete, if_pos hterm] at hdone
  obtain ⟨flag, hflag⟩ := hdone
  have hok : r = .ok flag := reply_eq hflag
  rw [RoutingIndex.row_act_of_ok ha hok hkey, ho]
  cases hs : v.state.row k with
  | none => exact .inl rfl
  | some u =>
  rw [Statement.effect]
  split
  · exact .inl rfl
  · next hu => exact .inr ⟨u, rfl, Nat.le_of_not_lt hu⟩

theorem Tracks.insert (hi : v.traces[i]? = some ⟨c, [], true⟩)
    (hlive : c.terminal = false) (hk : c.key = k)
    (hlate : ∀ tr ∈ v.traces, tr.call.key = k → tr.call.terminal = true →
      Complete tr.call tr.log → tr.call.timestamp ≤ c.timestamp)
    (ho : o = .insertIfAbsent c.key c.timestamp) :
    Tracks k row₀ ⟨s, v.traces.set i ⟨c, [⟨o, r⟩], running⟩⟩ := by
  have hkey : o.key = k := by rw [ho]; exact hk
  have hrow : s.row k = v.state.row k ∨
      (v.state.row k = none ∧
        s.row k = some c.timestamp) := by
    rw [RoutingIndex.row_act ha]
    split
    · rw [ho]
      cases hs : v.state.row k with
      | none => exact .inr ⟨rfl, rfl⟩
      | some u => exact .inl rfl
    · exact .inl rfl
  -- An answer means that there is a row now.
  have hok : ∀ flag, r = .ok flag →
      s.row k ≠ none := by
    intro flag hflag
    rw [RoutingIndex.row_act_of_ok ha hflag hkey, ho]
    cases hs : v.state.row k with
    | none | some => exact nofun
  refine h.ask hi ?_ ?_ (fun _ _ hdone => ?_) ?_ (fun _ _ hmid => ?_) ?_ fun _ hterm => ?_
  · intro t ht
    rcases hrow with hrow | ⟨-, hnew⟩
    · exact .inl (hrow ▸ ht)
    · rw [hnew] at ht
      exact .inr ⟨hk, hlive, Option.some.inj ht⟩
  · rintro t ⟨u, hu, htu⟩
    rcases hrow with hrow | ⟨hnone, -⟩
    · exact .inl ⟨u, hrow ▸ hu, htu⟩
    · rw [hnone] at hu
      cases hu
  · rw [Complete, if_neg (by rw [hlive]; exact Bool.false_ne_true)] at hdone
    rcases hdone with hflag | ⟨flag, flag', hflag⟩
    · have hflag : r = .ok (some true) := reply_eq hflag
      have happlied : (o.exec v.state).1 = true := by
        obtain ⟨rfl, rfl⟩ := Prod.ext_iff.1 ha
        cases reply with
        | done cut =>
          cases cut with
          | none => exact Option.some.inj (Except.ok.inj hflag)
          | some cut => cases hflag
        | error applied msg => cases hflag
      have hnone : v.state.row k = none := by
        subst ho hk
        cases hs : v.state.row c.key with
        | none => rfl
        | some u => simp [Statement.exec, Statement.key, hs] at happlied
      refine ⟨c.timestamp, ?_, le_rfl⟩
      rw [RoutingIndex.row_act_of_ok ha hflag hkey, ho, hnone]
      rfl
    · cases (List.cons.inj hflag).2
  · rintro hne -
    rcases hrow with hrow | ⟨hnone, -⟩
    · rwa [hrow]
    · exact absurd hnone hne
  · obtain ⟨-, flag, -, hflag⟩ := hmid
    exact hok flag (reply_eq hflag)
  · intro tr htr htrk htrt htrd hnone
    rcases hrow with hrow | ⟨-, hnew⟩
    · exact .inl (hrow.trans hnone)
    · exact .inr ⟨_, hnew, hlate tr htr htrk htrt htrd⟩
  · rw [hlive] at hterm
    cases hterm

theorem Tracks.update {flag : Option Bool} (hflag : flag ≠ some true)
    (hl : l = [(⟨.insertIfAbsent c.key c.timestamp, .ok flag⟩ : Entry)])
    (hi : v.traces[i]? = some ⟨c, l, true⟩) (hlive : c.terminal = false) (hk : c.key = k)
    (ho : o = .updateIfNewer c.key c.timestamp) :
    Tracks k row₀ ⟨s, v.traces.set i ⟨c, ⟨o, r⟩ :: l, running⟩⟩ := by
  have hkey : o.key = k := by rw [ho]; exact hk
  have hfound : v.state.row k ≠ none :=
    h.found _ (List.mem_of_getElem? hi) hk hlive ⟨rfl, flag, hflag, hl⟩
  obtain ⟨u, hu⟩ := Option.ne_none_iff_exists'.1 hfound
  have hrow : s.row k = some u ∨
      (u < c.timestamp ∧ s.row k = some c.timestamp) := by
    rw [RoutingIndex.row_act ha, hu]
    split
    · rw [ho, Statement.effect]
      split
      · next hlt => exact .inr ⟨hlt, rfl⟩
      · exact .inl rfl
    · exact .inl rfl
  have hsome : s.row k ≠ none := by rcases hrow with hrow | ⟨-, hrow⟩ <;> rw [hrow] <;> exact nofun
  refine h.ask hi ?_ ?_ (fun _ _ hdone => ?_) (fun _ _ => hsome) (fun _ _ _ => hsome) ?_
    fun _ hterm => ?_
  · intro t ht
    rcases hrow with hrow | ⟨-, hrow⟩
    · exact .inl (by rw [hu, ← ht, hrow])
    · rw [hrow] at ht
      exact .inr ⟨hk, hlive, Option.some.inj ht⟩
  · rintro t ⟨u', hu', htu⟩
    rw [hu] at hu'
    obtain rfl := Option.some.inj hu'
    rcases hrow with hrow | ⟨hlt, hrow⟩
    · exact .inl ⟨u, hrow, htu⟩
    · exact .inl ⟨_, hrow, htu.trans hlt.le⟩
  · rw [Complete, if_neg (by rw [hlive]; exact Bool.false_ne_true)] at hdone
    rcases hdone with hdone | ⟨flag₁, flag', hdone⟩
    · rw [hl] at hdone
      cases (List.cons.inj hdone).2
    have hok : r = .ok flag' := reply_eq hdone
    rw [RoutingIndex.row_act_of_ok ha hok hkey, ho, hu, Statement.effect]
    split
    · exact ⟨_, rfl, le_rfl⟩
    · next hlt => exact ⟨u, rfl, Nat.le_of_not_lt hlt⟩
  · exact fun _ _ _ _ _ hnone => absurd hnone hfound
  · rw [hlive] at hterm
    cases hterm

omit ha in
/-- **One step**: whatever happens next, the row goes on matching the reports. -/
theorem tracks_step {v' : PoolView Flag RoutingIndex RegionReport}
    (hs : reporting.Step Next (undisturbed k) v v') : Tracks k row₀ v' := by
  cases hs with
  | start c running =>
    refine h.quiet (fun tr htr => ⟨tr, List.mem_append_left _ htr, rfl, rfl⟩) fun tr' htr' => ?_
    rcases List.mem_append.1 htr' with htr' | htr'
    · exact .inr ⟨tr', htr', rfl, rfl, id⟩
    · exact .inl (by rw [List.mem_singleton.1 htr'])
  | @idle i c l b running hi hb =>
    refine h.quiet (fun tr htr => ?_) fun tr' htr' => .inr ?_
    · rcases List.mem_set_or_eq hi htr ⟨c, l, running⟩ with hmem | rfl
      · exact ⟨tr, hmem, rfl, rfl⟩
      · exact ⟨_, List.mem_set_of_getElem? hi ⟨c, l, running⟩, rfl, rfl⟩
    rcases List.mem_or_eq_of_mem_set htr' with htr' | rfl
    · exact ⟨tr', htr', rfl, rfl, id⟩
    · exact ⟨_, List.mem_of_getElem? hi, rfl, rfl, hb⟩
  | outside e => exact e.elim
  | @ask i c l o reply running hi hP hC =>
  rcases hP with ⟨hterm, rfl, rfl⟩ | ⟨hlive, rfl, rfl⟩ | ⟨hlive, ⟨flag, hflag, hl⟩, rfl⟩
  · by_cases hk : c.key = k
    · exact h.delete rfl hi hterm hk (hC hk) rfl
    · exact h.other rfl hi hk rfl
  · by_cases hk : c.key = k
    · exact h.insert rfl hi hlive hk (hC hk) rfl
    · exact h.other rfl hi hk rfl
  by_cases hk : c.key = k
  · exact h.update rfl hflag hl hi hlive hk rfl
  · exact h.other rfl hi hk rfl

end

theorem tracks_initial (s : RoutingIndex) : Tracks k (s.row k) ⟨s, []⟩ where
  source _ ht := .inl ht
  initial t ht := .inl ⟨t, ht, le_rfl⟩
  put _ htr := absurd htr List.not_mem_nil
  found _ htr := absurd htr List.not_mem_nil
  removed _ htr := absurd htr List.not_mem_nil

/-- A row that matches reports that have all been handled is what the latest one makes of the row
at the beginning. -/
theorem Tracks.settled (h : Tracks k row₀ v)
    (hdone : ∀ tr ∈ v.traces, tr.call.key = k → Complete tr.call tr.log)
    {tr : Trace Flag RegionReport} (htr : tr ∈ v.traces) (hk : tr.call.key = k)
    (hlatest : ∀ tr' ∈ v.traces, tr'.call.key = k →
      tr'.call.timestamp < tr.call.timestamp ∨ tr'.call = tr.call) :
    v.state.row k = tr.call.settle row₀ := by
  have hle : ∀ tr' ∈ v.traces, tr'.call.key = k → tr'.call.timestamp ≤ tr.call.timestamp := by
    intro tr' htr' hk'
    rcases hlatest tr' htr' hk' with hlt | heq
    · exact hlt.le
    · rw [heq]
  have hout : ∀ t, Outdated k v t → t < tr.call.timestamp :=
    fun t ⟨tr', htr', hk', _, _, ht⟩ => lt_of_lt_of_le ht (hle tr' htr' hk')
  rw [RegionReport.settle]
  cases hterm : tr.call.terminal with
  | false =>
    rw [if_neg Bool.false_ne_true]
    rcases h.put tr htr hk hterm (hdone tr htr hk) with ⟨u, hu, htu⟩ | hlate
    · rcases h.source u hu with h₀ | ⟨tr', htr', hk', -, rfl⟩
      · rw [hu, h₀, Statement.effect, Statement.effect, if_neg (Nat.not_lt.2 htu)]
      obtain heq := le_antisymm htu (hle tr' htr' hk')
      rw [hu, ← heq]
      cases h₀ : row₀ with
      | none => simp [Statement.effect]
      | some t₀ =>
      rw [Statement.effect, Statement.effect]
      split
      · rfl
      next hlt =>
      rcases h.initial t₀ h₀ with ⟨u', hu', hle'⟩ | hlate
      · rw [hu, ← heq] at hu'
        obtain rfl := Option.some.inj hu'
        exact congrArg some (le_antisymm (Nat.le_of_not_lt hlt) hle')
      · exact absurd (hout _ hlate) hlt
    · exact absurd (hout _ hlate) (lt_irrefl _)
  | true =>
  rw [if_pos rfl]
  have hnew : ∀ u, v.state.row k = some u → tr.call.timestamp ≤ u → row₀ = some u := by
    intro u hu htu
    rcases h.source u hu with h₀ | ⟨tr', htr', hk', hlive, rfl⟩
    · exact h₀
    rcases hlatest tr' htr' hk' with hlt | heq
    · exact absurd hlt (Nat.not_lt.2 htu)
    · rw [heq, hterm] at hlive
      cases hlive
  rcases h.removed tr htr hk hterm (hdone tr htr hk) with hnone | ⟨u, hu, htu⟩
  · cases h₀ : row₀ with
    | none => exact hnone
    | some t₀ =>
    rcases h.initial t₀ h₀ with ⟨u, hu, -⟩ | hlate
    · rw [hnone] at hu
      cases hu
    · rw [hnone, Statement.effect, if_pos (hout _ hlate)]
  · rw [hnew u hu htu, hu, Statement.effect, if_neg (Nat.not_lt.2 htu)]

/-- **Only the latest report counts.**  When every report about a resource has been handled, in
any order and at the same time as any others, the row of the resource is what the latest report
makes of the row at the beginning, provided no row was put back for a report older than the
removal and none was removed halfway through a report. -/
theorem routing_settles (s₀ : RoutingIndex) (es : List reporting.Event)
    (hes : reporting.Meets (undisturbed k) ⟨s₀, []⟩ es)
    (hdone : ∀ tr ∈ (reporting.run ⟨s₀, []⟩ es).view.traces, tr.call.key = k →
      Complete tr.call tr.log)
    (tr : Trace Flag RegionReport) (htr : tr ∈ (reporting.run ⟨s₀, []⟩ es).view.traces)
    (hk : tr.call.key = k)
    (hlatest : ∀ tr' ∈ (reporting.run ⟨s₀, []⟩ es).view.traces, tr'.call.key = k →
      tr'.call.timestamp < tr.call.timestamp ∨ tr'.call = tr.call) :
    (reporting.run ⟨s₀, []⟩ es).state.row k = tr.call.settle (s₀.row k) :=
  (Machine.invariant (P := Next) (J := Tracks k (s₀.row k)) body_next
    (fun _ _ hv hs => tracks_step hv hs) (y := ⟨s₀, []⟩) (fun _ hth => absurd hth List.not_mem_nil)
    (tracks_initial s₀) hes).1.settled hdone htr hk hlatest

end Runs

/-! ## Two runs

A resource is created at time 1 and destroyed at time 2.  In the first run the reports arrive in
this order, in the second one the report of its creation comes late. -/

/-- The row of `Std/Random.Int:lucky` in region `eu`. -/
def luckyKey : RegionKey := ⟨"acme/shop::main", "Std/Random.Int", "lucky", ⟨"eu"⟩⟩

/-- A turn in which a statement is carried out and answered. -/
def answered : reporting.sem.Turn := ⟨fun _ => (.done none : Reply), true⟩

/-- Both reports, one after the other. -/
def bothReports (first second : RegionReport) : List reporting.Event :=
  [.start first, .turn 0 answered, .start second, .turn 1 answered]

/-- The resource is destroyed, and the index says so. -/
theorem reports_in_order :
    let run := reporting.run ⟨.empty, []⟩ (bothReports ⟨luckyKey, 1, false⟩ ⟨luckyKey, 2, true⟩)
    reporting.Meets (undisturbed luckyKey) ⟨.empty, []⟩
        (bothReports ⟨luckyKey, 1, false⟩ ⟨luckyKey, 2, true⟩) ∧
      run.state.row luckyKey = (⟨luckyKey, 2, true⟩ : RegionReport).settle none := by
  have hmeets : reporting.Meets (undisturbed luckyKey) ⟨.empty, []⟩
      (bothReports ⟨luckyKey, 1, false⟩ ⟨luckyKey, 2, true⟩) := by
    refine ⟨trivial, Machine.admits_ask rfl ?_, trivial, Machine.admits_ask rfl ?_, trivial⟩
    · intro _ tr htr _ hterm
      rw [List.mem_singleton.1 htr] at hterm
      cases hterm
    intro _ tr htr _ hmid
    rcases List.mem_cons.1 htr with rfl | htr
    · cases hmid.1
    obtain ⟨-, flag, -, hlog⟩ := hmid
    rw [List.mem_singleton.1 htr] at hlog
    cases hlog
  refine ⟨hmeets, routing_settles .empty _ hmeets ?_ _ (.tail _ (.head _)) rfl ?_⟩
  · intro tr htr _
    rcases List.mem_cons.1 htr with rfl | htr
    · exact .inl rfl
    · rw [List.mem_singleton.1 htr]
      exact ⟨_, rfl⟩
  intro tr htr _
  rcases List.mem_cons.1 htr with rfl | htr
  · exact .inl (by decide)
  · exact .inr (by rw [List.mem_singleton.1 htr])

/-- The report of the creation comes after the one of the destruction, and the row it puts into
the index is never removed again. -/
theorem late_report_resurrects :
    let run := reporting.run ⟨.empty, []⟩ (bothReports ⟨luckyKey, 2, true⟩ ⟨luckyKey, 1, false⟩)
    run.threads.all (fun th => !th.running) ∧ run.state.row luckyKey = some 1 ∧
      (⟨luckyKey, 2, true⟩ : RegionReport).settle none = none := by
  decide +kernel

end Skyr.Re

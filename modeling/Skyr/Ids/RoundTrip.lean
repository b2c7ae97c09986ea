import Skyr.Ids

/-!
# Identifiers survive as text

Identifiers are stored and sent as text and parsed back.  The separators may occur in the names they
separate: an environment may be called `a::b@c`, and a resource `x:y/z`.  All the same a qualified
identifier that is built from parts that were accepted by their own parsers prints to a text that
parses to it, and no other identifier of its kind prints so (`qualified_ids_round_trip`).

* The text before the first `::` is that of a repository, which has no colon.
* The text behind the last `@` is that of a deployment id, which has hexadecimal digits and a point.
* The text behind the last `::` is that of a resource id.  This is why a resource name may neither
  start with a colon nor have two of them in a row: then the resource id prints without `::`, even
  where the separator in front of it adds a colon (`ResourceId.Built.no_pair`).
-/

namespace Skyr

open String List EnvironmentQid

/-! ## Round trips -/

/-- Printing and parsing undo each other, for what is properly built. -/
structure RoundTrips {α : Type} (print : α → String)
    (parse : List Char → Except ParseIdError α) (built : α → Prop) : Prop where
  parse_print : ∀ a, built a → parse (print a).toList = .ok a
  print_parse : ∀ s a, parse s = .ok a → print a = String.ofList s
  print_inj : ∀ a b, built a → built b → print a = print b → a = b

theorem RoundTrips.of_parse {α : Type} {print : α → String}
    {parse : List Char → Except ParseIdError α} {built : α → Prop}
    (hparse : ∀ a, built a → parse (print a).toList = .ok a)
    (hprint : ∀ s a, parse s = .ok a → (print a).toList = s) : RoundTrips print parse built where
  parse_print := hparse
  print_parse s a h := toList_inj.1 (by rw [hprint s a h, toList_ofList])
  print_inj a b ha hb h := by
    have hab := hparse a ha
    rw [h, hparse b hb] at hab
    exact (Except.ok.inj hab).symm

/-! ## Hexadecimal digits -/

theorem isHexLower_hexDigit {n : ℕ} (hn : n < 16) : isHexLower (hexDigit n) := by
  have hall : ∀ n < 16, isHexLower (hexDigit n) := by decide
  exact hall n hn

theorem hexDigitValue_hexDigit {n : ℕ} (hn : n < 16) : hexDigitValue (hexDigit n) = n := by
  have hall : ∀ n < 16, hexDigitValue (hexDigit n) = n := by decide
  exact hall n hn

/-- The sixteen digits. -/
theorem exists_hexDigit {c : Char} (h : isHexLower c) : ∃ n < 16, c = hexDigit n := by
  have hrange : (48 ≤ c.toNat ∧ c.toNat ≤ 57) ∨ (97 ≤ c.toNat ∧ c.toNat ≤ 102) := by
    simpa [isHexLower, Char.isDigit, Char.le_def, UInt32.le_iff_toNat_le] using h
  have hc : c = Char.ofNat c.toNat := (Char.ofNat_toNat c).symm
  rcases hrange with ⟨hlo, hhi⟩ | ⟨hlo, hhi⟩
  · refine ⟨c.toNat - 48, by omega, ?_⟩
    rw [hexDigit, if_pos (by omega), show 48 + (c.toNat - 48) = c.toNat by omega]
    exact hc
  refine ⟨c.toNat - 87, by omega, ?_⟩
  rw [hexDigit, if_neg (by omega), show 87 + (c.toNat - 87) = c.toNat by omega]
  exact hc

theorem hexValue_concat (s : List Char) (c : Char) :
    hexValue (s ++ [c]) = hexValue s * 16 + hexDigitValue c := by
  rw [hexValue, foldl_concat]
  rfl

theorem all_isHexLower_hexChars (w n : ℕ) : ∀ c ∈ hexChars w n, isHexLower c := by
  induction w generalizing n with
  | zero => exact nofun
  | succ w ih =>
  intro c hc
  rcases mem_append.1 hc with hc | hc
  · exact ih _ c hc
  · rw [mem_singleton.1 hc]
    exact isHexLower_hexDigit (Nat.mod_lt _ (by decide))

theorem hexValue_hexChars {w n : ℕ} (hn : n < 16 ^ w) : hexValue (hexChars w n) = n := by
  induction w generalizing n with
  | zero =>
    rw [pow_zero] at hn
    rw [Nat.lt_one_iff.1 hn]
    rfl
  | succ w ih =>
  rw [pow_succ] at hn
  have hdiv : n / 16 < 16 ^ w := by omega
  rw [hexChars, hexValue_concat, ih hdiv, hexDigitValue_hexDigit (Nat.mod_lt _ (by decide))]
  omega

variable {s : List Char}

/-- Digits are the digits of the number they stand for, which fits in their width. -/
theorem hexChars_hexValue (h : ∀ c ∈ s, isHexLower c) :
    hexChars s.length (hexValue s) = s ∧ hexValue s < 16 ^ s.length := by
  induction s using List.reverseRecOn with
  | nil => exact ⟨rfl, Nat.one_pos⟩
  | append_singleton s c ih =>
  obtain ⟨hs, hlt⟩ := ih fun d hd => h d (mem_append_left _ hd)
  obtain ⟨n, hn, rfl⟩ := exists_hexDigit (h c (mem_append_right _ mem_cons_self))
  have hlen : (s ++ [hexDigit n]).length = s.length + 1 := by simp
  rw [hlen, hexValue_concat, hexDigitValue_hexDigit hn, hexChars, pow_succ]
  have hdiv : (hexValue s * 16 + n) / 16 = hexValue s := by omega
  have hmod : (hexValue s * 16 + n) % 16 = n := by omega
  rw [hdiv, hmod, hs]
  exact ⟨rfl, by omega⟩

theorem toList_hexFixed (w n : ℕ) : (hexFixed w n).toList = hexChars w n := toList_ofList

/-- The test that both parsers of hexadecimal numbers make. -/
theorem isHex_hexFixed (w n : ℕ) :
    ((hexFixed w n).toList.length == w && (hexFixed w n).toList.all isHexLower) = true := by
  rw [toList_hexFixed, length_hexChars, Bool.and_eq_true, all_eq_true, beq_iff_eq]
  exact ⟨rfl, all_isHexLower_hexChars w n⟩

/-- What passes the test prints as it was. -/
theorem hexFixed_of_isHex {w m : ℕ} (hw : 2 ^ m = 16 ^ w)
    (h : (s.length == w && s.all isHexLower) = true) :
    (hexFixed w (BitVec.ofNat m (hexValue s)).toNat).toList = s := by
  rw [Bool.and_eq_true, beq_iff_eq, all_eq_true] at h
  obtain ⟨hchars, hlt⟩ := hexChars_hexValue h.2
  rw [h.1] at hchars hlt
  rw [← hw] at hlt
  rw [toList_hexFixed, BitVec.toNat_ofNat, Nat.mod_eq_of_lt hlt]
  exact hchars

theorem ObjId.parse_toString (o : ObjId) : ObjId.parse o.toString.toList = .ok o := by
  have hlt : o.bits.toNat < 16 ^ 40 := o.bits.isLt
  rw [ObjId.toString, ObjId.parse, if_pos (isHex_hexFixed _ _), toList_hexFixed,
    hexValue_hexChars hlt, BitVec.ofNat_toNat, BitVec.setWidth_eq]

theorem ObjId.toString_parse {o : ObjId} (h : ObjId.parse s = .ok o) : o.toString.toList = s := by
  rw [ObjId.parse] at h
  split at h
  · rename_i hs
    cases h
    exact hexFixed_of_isHex rfl hs
  · exact nomatch h

theorem DeploymentNonce.parse_toString (n : DeploymentNonce) :
    DeploymentNonce.parse n.toString.toList = .ok n := by
  have hlt : n.bits.toNat < 16 ^ 16 := n.bits.isLt
  rw [DeploymentNonce.toString, DeploymentNonce.parse, if_pos (isHex_hexFixed _ _),
    toList_hexFixed, hexValue_hexChars hlt, BitVec.ofNat_toNat, BitVec.setWidth_eq]

theorem DeploymentNonce.toString_parse {n : DeploymentNonce}
    (h : DeploymentNonce.parse s = .ok n) : n.toString.toList = s := by
  rw [DeploymentNonce.parse] at h
  split at h
  · rename_i hs
    cases h
    exact hexFixed_of_isHex rfl hs
  · exact nomatch h

/-- A letter that is no digit and not the point is not in a deployment id. -/
theorem DeploymentId.notMem_toString (d : DeploymentId) {x : Char} (hx : isHexLower x = false)
    (hdot : x ≠ '.') : x ∉ d.toString.toList := by
  have hhex : ∀ w n, x ∉ hexChars w n := fun w n h => by
    have := all_isHexLower_hexChars w n x h
    rw [hx] at this
    exact nomatch this
  simp only [DeploymentId.toString, ObjId.toString, DeploymentNonce.toString, toList_append,
    toList_hexFixed, mem_append]
  rintro ((h | h) | h)
  · exact hhex _ _ h
  · exact hdot (mem_singleton.1 h)
  · exact hhex _ _ h

theorem DeploymentId.parse_toString (d : DeploymentId) :
    DeploymentId.parse d.toString.toList = .ok d := by
  have hdot : '.' ∉ d.nonce.toString.toList := by
    rw [DeploymentNonce.toString, toList_hexFixed]
    exact fun h => nomatch all_isHexLower_hexChars _ _ _ h
  have hsplit : rsplitOnce ['.'] d.toString.toList =
      some (d.commit.toString.toList, d.nonce.toString.toList) := by
    rw [DeploymentId.toString, toList_append, toList_append]
    exact rsplitOnce_singleton hdot
  rw [DeploymentId.parse, hsplit]
  dsimp only
  rw [ObjId.parse_toString, DeploymentNonce.parse_toString]

theorem DeploymentId.toString_parse {d : DeploymentId}
    (h : DeploymentId.parse s = .ok d) : d.toString.toList = s := by
  rw [DeploymentId.parse] at h
  split at h
  · exact nomatch h
  rename_i commit nonce hsplit
  split at h
  · rename_i c n hc hn
    cases h
    rw [eq_of_rsplitOnce hsplit, ← ObjId.toString_parse hc, ← DeploymentNonce.toString_parse hn,
      DeploymentId.toString, toList_append, toList_append]
    rfl
  · exact nomatch h

/-! ## Repositories and environments -/

/-- A letter that no symbol has. -/
theorem notMem_of_isValidSymbol {x : Char} (h : isValidSymbol s)
    (hx : x.isAlphanum = false) (hne : x ≠ '_') : x ∉ s := by
  have hother : ∀ c : Char, (c.isAlphanum || c == '_') = true → c ≠ x := by
    rintro c hc rfl
    rw [hx, Bool.false_or, beq_iff_eq] at hc
    exact hne hc
  cases s with
  | nil => exact nofun
  | cons first rest =>
  rw [isValidSymbol, Bool.and_eq_true, all_eq_true] at h
  rintro (_ | ⟨_, hmem⟩)
  · refine hother x ?_ rfl
    have h1 := h.1
    rw [Char.isAlphanum]
    revert h1
    cases x.isAlpha <;> cases x == '_' <;> simp
  · exact hother x (h.2 x hmem) rfl

/-- The organisation was accepted by its parser. -/
def OrgId.Parsed (o : OrgId) : Prop := ∃ s, OrgId.parse s = .ok o

def RepoId.Parsed (r : RepoId) : Prop := ∃ s, RepoId.parse s = .ok r

theorem OrgId.parse_eq_ok {o : OrgId} :
    OrgId.parse s = .ok o ↔ isValidSymbol s = true ∧ o = ⟨String.ofList s⟩ := by
  rw [OrgId.parse]
  split
  · rename_i hs
    simp [hs, eq_comm]
  · rename_i hs
    simp [hs]

theorem RepoId.parse_eq_ok {r : RepoId} :
    RepoId.parse s = .ok r ↔ isValidSymbol s = true ∧ r = ⟨String.ofList s⟩ := by
  rw [RepoId.parse]
  split
  · rename_i hs
    simp [hs, eq_comm]
  · rename_i hs
    simp [hs]

theorem OrgId.Parsed.valid {o : OrgId} (h : o.Parsed) : isValidSymbol o.str.toList := by
  obtain ⟨s, hs⟩ := h
  obtain ⟨hvalid, rfl⟩ := OrgId.parse_eq_ok.1 hs
  rwa [toList_ofList]

theorem RepoId.Parsed.valid {r : RepoId} (h : r.Parsed) : isValidSymbol r.str.toList := by
  obtain ⟨s, hs⟩ := h
  obtain ⟨hvalid, rfl⟩ := RepoId.parse_eq_ok.1 hs
  rwa [toList_ofList]

/-- Both parts were accepted by their parsers. -/
structure RepoQid.Built (q : RepoQid) : Prop where
  org : q.org.Parsed
  repo : q.repo.Parsed

theorem RepoQid.toList_toString (q : RepoQid) :
    q.toString.toList = q.org.str.toList ++ ['/'] ++ q.repo.str.toList := by
  rw [RepoQid.toString, toList_append, toList_append]
  rfl

variable {q : RepoQid}

theorem RepoQid.Built.notMem_colon (h : q.Built) : ':' ∉ q.toString.toList := by
  rw [RepoQid.toList_toString]
  simp only [mem_append, mem_singleton]
  rintro ((hc | hc) | hc)
  · exact notMem_of_isValidSymbol h.org.valid (by decide) (by decide) hc
  · exact absurd hc (by decide)
  · exact notMem_of_isValidSymbol h.repo.valid (by decide) (by decide) hc

theorem RepoQid.parse_toString (h : q.Built) : RepoQid.parse q.toString.toList = .ok q := by
  have hslash := notMem_of_isValidSymbol (x := '/') h.org.valid (by decide) (by decide)
  rw [RepoQid.parse, RepoQid.toList_toString, splitOnce_singleton hslash]
  dsimp only
  rw [OrgId.parse_eq_ok.2 ⟨h.org.valid, rfl⟩, RepoId.parse_eq_ok.2 ⟨h.repo.valid, rfl⟩]
  simp

theorem RepoQid.toString_parse (h : RepoQid.parse s = .ok q) : q.toString.toList = s ∧ q.Built := by
  rw [RepoQid.parse] at h
  split at h
  · exact nomatch h
  rename_i org repo hsplit
  split at h
  · rename_i o r ho hr
    cases h
    refine ⟨?_, ⟨org, ho⟩, ⟨repo, hr⟩⟩
    rw [eq_of_splitOnce hsplit, RepoQid.toList_toString, (OrgId.parse_eq_ok.1 ho).2,
      (RepoId.parse_eq_ok.1 hr).2, toList_ofList, toList_ofList]
  · exact nomatch h

/-- The environment was accepted by its parser, or read off a git reference. -/
def EnvironmentId.Parsed (e : EnvironmentId) : Prop :=
  (∃ s, EnvironmentId.parse s = .ok e) ∨ ∃ fullRef, EnvironmentId.fromGitRef fullRef = .ok e

theorem EnvironmentId.parse_eq_ok {e : EnvironmentId} :
    EnvironmentId.parse s = .ok e ↔ s ≠ [] ∧ e = ⟨String.ofList s⟩ := by
  rw [EnvironmentId.parse]
  cases s <;> simp [eq_comm]

/-- All that is asked of the name of an environment is that there is one. -/
theorem EnvironmentId.Parsed.ne_nil {e : EnvironmentId} (h : e.Parsed) : e.str.toList ≠ [] := by
  rcases h with ⟨s, hs⟩ | ⟨fullRef, hs⟩
  · obtain ⟨hne, rfl⟩ := EnvironmentId.parse_eq_ok.1 hs
    rwa [toList_ofList]
  rw [EnvironmentId.fromGitRef] at hs
  split at hs
  · split at hs
    · exact nomatch hs
    rename_i hne
    cases hs
    simpa using hne
  · split at hs
    · exact nomatch hs
    · cases hs
      simp
  · exact nomatch hs

structure EnvironmentQid.Built (q : EnvironmentQid) : Prop where
  repo : q.repo.Built
  environment : q.environment.Parsed

theorem EnvironmentQid.toList_toString (q : EnvironmentQid) :
    q.toString.toList = q.repo.toString.toList ++ [':', ':'] ++ q.environment.str.toList := by
  rw [EnvironmentQid.toString, toList_append, toList_append]
  rfl

/-- A text that starts with a repository and `::`, and goes on, is that of an environment. -/
theorem EnvironmentQid.parse_append {r : RepoQid} (hr : r.Built) (hs : s ≠ []) :
    EnvironmentQid.parse (r.toString.toList ++ [':', ':'] ++ s) = .ok ⟨r, ⟨String.ofList s⟩⟩ := by
  rw [EnvironmentQid.parse, splitOnce_pair hr.notMem_colon]
  dsimp only
  rw [RepoQid.parse_toString hr, EnvironmentId.parse_eq_ok.2 ⟨hs, rfl⟩]

theorem EnvironmentQid.parse_toString {q : EnvironmentQid} (h : q.Built) :
    EnvironmentQid.parse q.toString.toList = .ok q := by
  rw [toList_toString, parse_append h.repo h.environment.ne_nil]
  simp

theorem EnvironmentQid.toString_parse {q : EnvironmentQid}
    (h : EnvironmentQid.parse s = .ok q) : q.toString.toList = s ∧ q.Built := by
  rw [EnvironmentQid.parse] at h
  split at h
  · exact nomatch h
  rename_i repo env hsplit
  split at h
  · rename_i r e hr he
    cases h
    obtain ⟨hprint, hbuilt⟩ := RepoQid.toString_parse hr
    refine ⟨?_, hbuilt, .inl ⟨env, he⟩⟩
    rw [eq_of_splitOnce hsplit, toList_toString, hprint,
      (EnvironmentId.parse_eq_ok.1 he).2, toList_ofList]
  · exact nomatch h

/-! ## Deployments -/

/-- A deployment id is a pair of numbers, so only the environment is to be parsed. -/
def DeploymentQid.Built (q : DeploymentQid) : Prop := q.environment.Built

theorem DeploymentQid.toList_toString (q : DeploymentQid) :
    q.toString.toList = q.environment.toString.toList ++ ['@'] ++ q.deployment.toString.toList := by
  rw [DeploymentQid.toString, toList_append, toList_append]
  rfl

theorem DeploymentQid.parse_toString {q : DeploymentQid} (h : q.Built) :
    DeploymentQid.parse q.toString.toList = .ok q := by
  have hat := q.deployment.notMem_toString (x := '@') (by decide) (by decide)
  rw [DeploymentQid.parse, DeploymentQid.toList_toString, rsplitOnce_singleton hat]
  dsimp only
  rw [EnvironmentQid.parse_toString h, DeploymentId.parse_toString]

theorem DeploymentQid.toString_parse {q : DeploymentQid}
    (h : DeploymentQid.parse s = .ok q) : q.toString.toList = s ∧ q.Built := by
  rw [DeploymentQid.parse] at h
  split at h
  · exact nomatch h
  rename_i env deploy hsplit
  split at h
  · rename_i e d he hd
    cases h
    obtain ⟨hprint, hbuilt⟩ := EnvironmentQid.toString_parse he
    refine ⟨?_, hbuilt⟩
    rw [eq_of_rsplitOnce hsplit, DeploymentQid.toList_toString, hprint,
      DeploymentId.toString_parse hd]
  · exact nomatch h

/-! ## Resources -/

theorem RegionId.parse_eq_ok {r : RegionId} :
    RegionId.parse s = .ok r ↔ isValidRegion s = true ∧ r = ⟨String.ofList s⟩ := by
  rw [RegionId.parse]
  split
  · rename_i hs
    simp [hs, eq_comm]
  · rename_i hs
    simp [hs]

theorem RegionId.parse_str {r : RegionId} (h : isValidRegion r.str.toList) :
    RegionId.parse r.str.toList = .ok r :=
  RegionId.parse_eq_ok.2 ⟨h, by rw [ofList_toList]⟩

/-- A name that the parser of resource ids accepts. -/
structure ValidName (name : List Char) : Prop where
  ne_nil : name ≠ []
  no_pair : ¬ [':', ':'] <:+: ':' :: name

/-- The region is a region, the type has no colon, and the name is one the parser accepts. -/
structure ResourceId.Built (r : ResourceId) : Prop where
  region : isValidRegion r.region.str.toList = true
  typ_ne_nil : r.typ.toList ≠ []
  typ_colon : ':' ∉ r.typ.toList
  name : ValidName r.name.toList

theorem notMem_of_isValidRegion (h : isValidRegion s) : ':' ∉ s := by
  rw [isValidRegion, Bool.and_eq_true, all_eq_true] at h
  exact fun hc => absurd (h.2 ':' hc) (by decide)

theorem ResourceId.toList_toString (r : ResourceId) :
    r.toString.toList =
      r.region.str.toList ++ [':'] ++ (r.typ.toList ++ [':'] ++ r.name.toList) := by
  simp [ResourceId.toString]

/-- **A resource id has no `::`**, also not together with the separator in front of it. -/
theorem ResourceId.Built.no_pair {r : ResourceId} (h : r.Built) :
    ¬ [':', ':'] <:+: ':' :: r.toString.toList := by
  obtain ⟨c, region, hregion⟩ : ∃ c region, r.region.str.toList = c :: region := by
    refine exists_cons_of_ne_nil fun hnil => ?_
    have := h.region
    rw [hnil] at this
    exact nomatch this
  obtain ⟨d, typ, htyp⟩ := exists_cons_of_ne_nil h.typ_ne_nil
  have hc : ':' ∉ c :: region := hregion ▸ notMem_of_isValidRegion h.region
  have hd : ':' ∉ d :: typ := htyp ▸ h.typ_colon
  have hcolon : ':' ≠ c ∧ ':' ≠ d :=
    ⟨fun heq => hc (heq ▸ mem_cons_self), fun heq => hd (heq ▸ mem_cons_self)⟩
  rw [ResourceId.toList_toString, hregion, htyp, List.append_assoc, List.append_assoc,
    pair_infix_cons, pair_infix_append hc]
  rintro (⟨-, hhead⟩ | hpair)
  · exact hcolon.1 (Option.some.inj hhead).symm
  rw [singleton_append, pair_infix_cons, pair_infix_append hd] at hpair
  rcases hpair with ⟨-, hhead⟩ | hpair
  · exact hcolon.2 (Option.some.inj hhead).symm
  · exact h.name.no_pair hpair

/-- What the parser asks of a name. -/
theorem validName_iff {name : List Char} :
    ValidName name ↔ name ≠ [] ∧ name.head? ≠ some ':' ∧ splitOnce [':', ':'] name = none := by
  constructor
  · intro h
    have hpair := pair_infix_cons.not.1 h.no_pair
    refine ⟨h.ne_nil, fun hhead => hpair (.inl ⟨rfl, hhead⟩), ?_⟩
    rw [Option.eq_none_iff_forall_not_mem]
    rintro ⟨a, b⟩ hab
    refine hpair (.inr ⟨a, b, ?_⟩)
    exact (eq_of_splitOnce hab).symm
  rintro ⟨hne, hhead, hnone⟩
  refine ⟨hne, pair_infix_cons.not.2 ?_⟩
  rintro (⟨-, h⟩ | h)
  · exact hhead h
  have := splitOnce_isSome h
  rw [hnone] at this
  exact nomatch this

/-- **A resource id parses from its text**, and from no other. -/
theorem ResourceId.parse_eq_ok {r : ResourceId} :
    ResourceId.parse s = .ok r ↔ r.Built ∧ r.toString.toList = s := by
  constructor
  · intro h
    rw [ResourceId.parse] at h
    split at h
    · exact nomatch h
    rename_i region rest hsplit
    split at h
    · rename_i g typ name hg hsplit'
      obtain ⟨hvalid, rfl⟩ := RegionId.parse_eq_ok.1 hg
      split at h
      · exact nomatch h
      rename_i hempty
      rw [Bool.or_eq_true, List.isEmpty_iff, List.isEmpty_iff, not_or] at hempty
      split at h
      · exact nomatch h
      rename_i hname
      rw [Bool.or_eq_true, beq_iff_eq, not_or, Bool.not_eq_true, Option.isSome_eq_false_iff,
        Option.isNone_iff_eq_none] at hname
      cases h
      refine ⟨⟨?_, ?_, ?_, ?_⟩, ?_⟩
      · simpa using hvalid
      · simpa using hempty.1
      · simpa using notMem_of_splitOnce hsplit'
      · rw [toList_ofList]
        exact validName_iff.2 ⟨hempty.2, hname.1, hname.2⟩
      · rw [eq_of_splitOnce hsplit, eq_of_splitOnce hsplit', ResourceId.toList_toString]
        simp
    · exact nomatch h
  rintro ⟨h, rfl⟩
  obtain ⟨hne, hhead, hnone⟩ := validName_iff.1 h.name
  have hempty : (r.typ.toList.isEmpty || r.name.toList.isEmpty) = false := by
    rw [Bool.or_eq_false_iff, List.isEmpty_eq_false_iff, List.isEmpty_eq_false_iff]
    exact ⟨h.typ_ne_nil, hne⟩
  rw [ResourceId.parse, ResourceId.toList_toString,
    splitOnce_singleton (notMem_of_isValidRegion h.region)]
  dsimp only
  rw [RegionId.parse_eq_ok.2 ⟨h.region, rfl⟩, splitOnce_singleton h.typ_colon]
  dsimp only
  rw [hempty, if_neg Bool.false_ne_true, hnone, if_neg]
  · simp
  · simpa using hhead

structure ResourceQid.Built (q : ResourceQid) : Prop where
  environment : q.environment.Built
  resource : ∃ s, ResourceId.parse s = .ok q.resource

theorem ResourceQid.toList_toString (q : ResourceQid) :
    q.toString.toList =
      q.environment.toString.toList ++ [':', ':'] ++ q.resource.toString.toList := by
  rw [ResourceQid.toString, toList_append, toList_append]
  rfl

variable {q : ResourceQid}

theorem ResourceQid.Built.resource_built (h : q.Built) : q.resource.Built := by
  obtain ⟨s, hs⟩ := h.resource
  exact (ResourceId.parse_eq_ok.1 hs).1

theorem ResourceQid.parse_toString (h : q.Built) : ResourceQid.parse q.toString.toList = .ok q := by
  have hr := h.resource_built
  rw [ResourceQid.parse, ResourceQid.toList_toString, rsplitOnce_pair hr.no_pair]
  dsimp only
  rw [EnvironmentQid.parse_toString h.environment, ResourceId.parse_eq_ok.2 ⟨hr, rfl⟩]

theorem ResourceQid.toString_parse
    (h : ResourceQid.parse s = .ok q) : q.toString.toList = s ∧ q.Built := by
  rw [ResourceQid.parse] at h
  split at h
  · exact nomatch h
  rename_i env resource hsplit
  split at h
  · rename_i e r he hr
    cases h
    obtain ⟨hprint, hbuilt⟩ := EnvironmentQid.toString_parse he
    refine ⟨?_, hbuilt, resource, hr⟩
    rw [eq_of_rsplitOnce hsplit, ResourceQid.toList_toString, hprint,
      (ResourceId.parse_eq_ok.1 hr).2]
  · exact nomatch h

/-- **Qualified identifiers survive as text.** -/
theorem qualified_ids_round_trip :
    RoundTrips RepoQid.toString RepoQid.parse RepoQid.Built ∧
    RoundTrips EnvironmentQid.toString EnvironmentQid.parse EnvironmentQid.Built ∧
    RoundTrips DeploymentQid.toString DeploymentQid.parse DeploymentQid.Built ∧
    RoundTrips ResourceQid.toString ResourceQid.parse ResourceQid.Built :=
  ⟨.of_parse (fun _ => RepoQid.parse_toString) fun _ _ h => (RepoQid.toString_parse h).1,
    .of_parse (fun _ => EnvironmentQid.parse_toString) fun _ _ h =>
      (EnvironmentQid.toString_parse h).1,
    .of_parse (fun _ => DeploymentQid.parse_toString) fun _ _ h =>
      (DeploymentQid.toString_parse h).1,
    .of_parse (fun _ => ResourceQid.parse_toString) fun _ _ h =>
      (ResourceQid.toString_parse h).1⟩

/-! ## Git references

Tags and branches share the environments: the one of a tag has `tag:` in front.  Git refuses a
colon in the name of a reference, so no branch is taken for a tag. -/

/-- What git accepts for the name of a reference. -/
structure GitRef (s : List Char) : Prop where
  letters : ∀ c ∈ s, ' ' < c ∧ c ≠ '\x7f' ∧ c ∉ ['~', '^', ':', '?', '*', '[', '\\']
  edges : s.head? ≠ some '/' ∧ s.getLast? ≠ some '/' ∧ s.getLast? ≠ some '.'
  pairs : ∀ p ∈ [['/', '/'], ['.', '.'], ['@', '\x7b']], ¬ p <:+: s
  components : ∀ c ∈ s.splitOn '/', c.head? ≠ some '.' ∧ ¬ ".lock".toList <:+ c

/-- The reference of a branch or of a tag. -/
def BranchOrTag (s : List Char) : Prop :=
  GitRef s ∧ ("refs/heads/".toList <+: s ∨ "refs/tags/".toList <+: s)

theorem stripPrefix_append (a b : List Char) : stripPrefix a (a ++ b) = some b := by
  simp [stripPrefix]

theorem eq_of_stripPrefix {a t : List Char} (h : stripPrefix a s = some t) : s = a ++ t := by
  rw [stripPrefix, Option.ite_none_right_eq_some] at h
  obtain ⟨t', rfl⟩ := isPrefixOf_iff_prefix.1 h.1
  simpa using h.2

/-- A reference that ends where its name should start ends with a slash. -/
theorem BranchOrTag.ne_nil {a t : List Char} (h : BranchOrTag (a ++ '/' :: t)) : t ≠ [] := by
  rintro rfl
  exact h.1.edges.2.1 getLast?_concat

theorem BranchOrTag.toGitRef (h : BranchOrTag s) :
    ∃ e, EnvironmentId.fromGitRef s = .ok e ∧ e.toGitRef = s := by
  rcases h.2 with ⟨name, rfl⟩ | ⟨name, rfl⟩
  · have hname : name ≠ [] := h.ne_nil (a := "refs/heads".toList)
    have hcolon : ':' ∉ name := fun hmem =>
      (h.1.letters ':' (mem_append_right _ hmem)).2.2 (by simp)
    have htag : stripPrefix "tag:".toList name = none := by
      refine Option.eq_none_iff_forall_ne_some.2 fun t ht => hcolon ?_
      rw [eq_of_stripPrefix ht]
      exact mem_append_left _ (by decide)
    refine ⟨⟨String.ofList name⟩, ?_, ?_⟩
    · simp only [EnvironmentId.fromGitRef, stripPrefix_append]
      simp [hname]
    · simp only [EnvironmentId.toGitRef, toList_ofList, htag]
  have hname : name ≠ [] := h.ne_nil (a := "refs/tags".toList)
  have hheads : stripPrefix "refs/heads/".toList ("refs/tags/".toList ++ name) = none := rfl
  refine ⟨⟨"tag:" ++ String.ofList name⟩, ?_, ?_⟩
  · simp only [EnvironmentId.fromGitRef, hheads, stripPrefix_append]
    simp [hname]
  · simp only [EnvironmentId.toGitRef, toList_append, toList_ofList, stripPrefix_append]

/-- **Branches and tags correspond to environments one to one.** -/
theorem environment_of_ref_unique :
    (∀ r, BranchOrTag r → ∃ e, EnvironmentId.fromGitRef r = .ok e ∧ e.toGitRef = r) ∧
    ∀ r r' e, BranchOrTag r → BranchOrTag r' → EnvironmentId.fromGitRef r = .ok e →
      EnvironmentId.fromGitRef r' = .ok e → r = r' := by
  refine ⟨fun _ => BranchOrTag.toGitRef, fun r r' e hr hr' he he' => ?_⟩
  obtain ⟨_, ha, hback⟩ := hr.toGitRef
  obtain ⟨_, ha', hback'⟩ := hr'.toGitRef
  rw [he] at ha
  rw [he'] at ha'
  cases ha
  cases ha'
  rw [← hback, hback']

theorem release_tag_environment :
    ∃ e, EnvironmentId.fromGitRef "refs/tags/v1.0".toList = .ok e ∧
      e.toGitRef = "refs/tags/v1.0".toList :=
  environment_of_ref_unique.1 _
    ⟨⟨forall_iff_forall_mem.1 (by decide), by decide, by decide, by decide⟩, .inr (by decide)⟩

end Skyr

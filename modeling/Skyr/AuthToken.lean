import Skyr.Ids.RoundTrip

/-!
# The payload of identity tokens

A token is a payload of bytes and a signature over them.  The payload holds the claims: a version,
two texts behind their lengths, two times and a nonce.  It is read with a cursor, and every reader
compares the cursor with the end of the payload before it takes anything.

Since a signature is over bytes and not over claims, it matters that the two determine each other.
`Codec` says what a reader has to do with what was written, and is kept when two readers follow each
other; `token_codec` puts the fields together.
-/

namespace Skyr.AuthToken

def formatVersion : UInt8 := 1

def nonceLen : ℕ := 16

structure Claims where
  username : String
  issuerRegion : RegionId
  issuedAt : Int64
  expiresAt : Int64
  nonce : {bytes : List UInt8 // bytes.length = nonceLen}

inductive VerifyError
  | malformed
  | unsupportedVersion (version : UInt8)
  | invalidIssuerRegion (error : ParseIdError)

/-- How reading can end other than well: with an error, or with a panic, since the payload was
indexed outside its range. -/
inductive Fault
  | verify (e : VerifyError)
  | outOfRange

/-! ## Writing -/

/-- The last bytes of a number, the highest one first. -/
def beBytes : ℕ → ℕ → List UInt8
  | 0, _ => []
  | k + 1, n => beBytes k (n / 256) ++ [UInt8.ofNat n]

def ofBeBytes (bytes : List UInt8) : ℕ := bytes.foldl (fun n b => n * 256 + b.toNat) 0

def utf8 (s : String) : List UInt8 := s.toByteArray.data.toList

def writeString (s : String) : List UInt8 := UInt8.ofNat (utf8 s).length :: utf8 s

def writeI64 (x : Int64) : List UInt8 := beBytes 8 x.toUInt64.toNat

/-- The payload for some claims.  If a text is too long for its length to fit in a byte, an
assertion fails. -/
def encode (c : Claims) : Option (List UInt8) :=
  if (utf8 c.username).length ≤ 255 ∧ (utf8 c.issuerRegion.str).length ≤ 255 then
    some (formatVersion :: (writeString c.username ++ (writeString c.issuerRegion.str ++
      (writeI64 c.issuedAt ++ (writeI64 c.expiresAt ++ c.nonce.1)))))
  else none

/-! ## Reading -/

/-- A reader moves the cursor. -/
abbrev Reader := StateT ℕ (Except Fault)

section Readers

variable (buf : List UInt8)

/-- The bytes from `i` up to `j`, as an index expression takes them. -/
def slice (i j : ℕ) : Except Fault (List UInt8) :=
  if i ≤ j ∧ j ≤ buf.length then .ok ((buf.drop i).take (j - i)) else .error .outOfRange

def readU8 : Reader UInt8 := fun cur =>
  if cur ≥ buf.length then .error (.verify .malformed)
  else
    match buf[cur]? with
    | some v => .ok (v, cur + 1)
    | none => .error .outOfRange

/-- The next `n` bytes, if there are as many: what the other readers begin with. -/
def readBytes (n : ℕ) : Reader (List UInt8) := fun cur =>
  if cur + n > buf.length then .error (.verify .malformed)
  else (slice buf cur (cur + n)).map fun bytes => (bytes, cur + n)

def readString : Reader String := do
  let len ← readU8 buf
  let bytes ← readBytes buf len.toNat
  match String.fromUTF8? ⟨bytes.toArray⟩ with
  | some s => pure s
  | none => throw (.verify .malformed)

/-- The bytes are copied to an array of their number, and copying panics at any other length. -/
def readArray (n : ℕ) : Reader {bytes : List UInt8 // bytes.length = n} := do
  let bytes ← readBytes buf n
  if h : bytes.length = n then pure ⟨bytes, h⟩ else throw .outOfRange

def readI64 : Reader Int64 := do
  let bytes ← readArray buf 8
  pure (UInt64.ofNat (ofBeBytes bytes)).toInt64

end Readers

def both {α β : Type} (m : Reader α) (n : Reader β) : Reader (α × β) := do
  let a ← m
  let b ← n
  pure (a, b)

/-- The fields after the version. -/
abbrev Fields := String × String × Int64 × Int64 × {bytes : List UInt8 // bytes.length = nonceLen}

def readFields (buf : List UInt8) : Reader Fields :=
  both (readString buf) (both (readString buf) (both (readI64 buf) (both (readI64 buf)
    (readArray buf nonceLen))))

def claimsOf : Fields → Except Fault Claims
  | (username, region, issuedAt, expiresAt, nonce) =>
    match RegionId.parse region.toList with
    | .ok region => .ok ⟨username, region, issuedAt, expiresAt, nonce⟩
    | .error e => .error (.verify (.invalidIssuerRegion e))

def decode (payload : List UInt8) : Except Fault Claims := do
  let (version, cur) ← readU8 payload 0
  if version ≠ formatVersion then .error (.verify (.unsupportedVersion version))
  else
    let (fields, cur) ← readFields payload cur
    if cur ≠ payload.length then .error (.verify .malformed) else claimsOf fields

/-! ## What is read was written

Each reader is a `Codec` for the values it reads.  The texts need a length that fits, everything
else is read back without a condition. -/

section Codecs

variable {α β : Type} {buf : List UInt8} {cur cur' : ℕ}

/-- The reader takes exactly what `write` writes, for the values that `P` admits, and stays within
the payload. -/
structure Codec (buf : List UInt8) (m : Reader α) (P : α → Prop) (write : α → List UInt8) :
    Prop where
  eq_ok : ∀ {cur a cur'}, cur ≤ buf.length → (m cur = .ok (a, cur') ↔
    P a ∧ write a <+: buf.drop cur ∧ cur' = cur + (write a).length)
  safe : ∀ cur, m cur ≠ .error .outOfRange

theorem bind_eq_ok {m : Reader α} {f : α → Reader β} {r : β × ℕ} :
    (m >>= f) cur = .ok r ↔ ∃ a mid, m cur = .ok (a, mid) ∧ f a mid = .ok r := by
  change (m cur >>= fun x => f x.1 x.2) = _ ↔ _
  cases m cur with
  | error e => simp [bind, Except.bind]
  | ok x => exact ⟨fun h => ⟨x.1, x.2, rfl, h⟩, fun ⟨_, _, hx, h⟩ => by cases hx; exact h⟩

/-- An error that is handed on. -/
theorem error_safe {x : Except Fault α} {e : Fault} (hx : x = .error e)
    (h : x ≠ .error .outOfRange) : (.error e : Except Fault β) ≠ .error .outOfRange := by
  rintro ⟨⟩
  exact h hx

theorem bind_safe {m : Reader α} {f : α → Reader β} (hm : m cur ≠ .error .outOfRange)
    (hf : ∀ a mid, m cur = .ok (a, mid) → f a mid ≠ .error .outOfRange) :
    (m >>= f) cur ≠ .error .outOfRange := by
  change (m cur >>= fun x => f x.1 x.2) ≠ _
  cases hx : m cur with
  | error e => exact error_safe hx hm
  | ok x => exact hf x.1 x.2 hx

/-- What stands behind a part of the payload. -/
theorem of_drop {written rest : List UInt8} (hcur : cur ≤ buf.length)
    (h : written ++ rest = buf.drop cur) :
    cur + written.length ≤ buf.length ∧ buf.drop (cur + written.length) = rest := by
  have hlen := congrArg List.length h
  rw [List.length_append, List.length_drop] at hlen
  refine ⟨by omega, ?_⟩
  rw [← List.drop_drop, ← h, List.drop_left]

theorem readU8_codec : Codec buf (readU8 buf) (fun _ => True) fun v => [v] where
  eq_ok {cur v cur'} hcur := by
    by_cases h : cur < buf.length
    · have hread : readU8 buf cur = .ok (buf.get ⟨cur, h⟩, cur + 1) := by
        simp [readU8, h, Nat.not_le.2 h]
      rw [hread, List.drop_eq_getElem_cons h]
      constructor
      · intro heq
        cases heq
        exact ⟨trivial, ⟨_, rfl⟩, rfl⟩
      · rintro ⟨-, hpre, rfl⟩
        rw [(List.cons_prefix_cons.1 hpre).1]
        rfl
    · have hread : readU8 buf cur = .error (.verify .malformed) := if_pos (Nat.le_of_not_lt h)
      rw [hread, List.drop_eq_nil_of_le (Nat.le_of_not_lt h)]
      simp
  safe cur := by
    by_cases h : cur < buf.length
    · simp [readU8, h, Nat.not_le.2 h]
    · simp [readU8, Nat.le_of_not_lt h]

theorem readBytes_eq_ok {n : ℕ} {bytes : List UInt8} (hcur : cur ≤ buf.length) :
    readBytes buf n cur = .ok (bytes, cur') ↔
      bytes.length = n ∧ bytes <+: buf.drop cur ∧ cur' = cur + n := by
  by_cases h : cur + n ≤ buf.length
  · have hread : readBytes buf n cur = .ok ((buf.drop cur).take n, cur + n) := by
      simp [readBytes, slice, h, Nat.not_lt.2 h, Except.map]
    have hn : n ≤ (buf.drop cur).length := by rw [List.length_drop]; omega
    rw [hread]
    constructor
    · intro heq
      cases heq
      exact ⟨List.length_take_of_le hn, List.take_prefix _ _, rfl⟩
    · rintro ⟨rfl, hpre, rfl⟩
      rw [← List.prefix_iff_eq_take.1 hpre]
  · have hread : readBytes buf n cur = .error (.verify .malformed) := if_pos (Nat.lt_of_not_le h)
    rw [hread]
    constructor
    · intro heq
      cases heq
    · rintro ⟨rfl, hpre, -⟩
      have hlen := hpre.length_le
      rw [List.length_drop] at hlen
      omega

theorem readBytes_length {n : ℕ} {bytes : List UInt8}
    (h : readBytes buf n cur = .ok (bytes, cur')) : bytes.length = n := by
  by_cases hn : cur + n ≤ buf.length
  · exact ((readBytes_eq_ok (Nat.le_of_add_right_le hn)).1 h).1
  · rw [readBytes, if_pos (Nat.lt_of_not_le hn)] at h
    cases h

theorem readBytes_safe (n : ℕ) : readBytes buf n cur ≠ .error .outOfRange := by
  by_cases h : cur + n ≤ buf.length
  · simp [readBytes, slice, h, Nat.not_lt.2 h, Except.map]
  · simp [readBytes, Nat.lt_of_not_le h]

theorem readArray_codec (n : ℕ) : Codec buf (readArray buf n) (fun _ => True) (·.1) where
  eq_ok {cur a cur'} hcur := by
    obtain ⟨a, rfl⟩ := a
    simp only [readArray, bind_eq_ok, readBytes_eq_ok hcur, true_and]
    constructor
    · rintro ⟨bytes, mid, ⟨hlen, hpre, rfl⟩, h⟩
      rw [dif_pos hlen] at h
      cases h
      exact ⟨hpre, rfl⟩
    · rintro ⟨hpre, rfl⟩
      exact ⟨a, _, ⟨rfl, hpre, rfl⟩, by rw [dif_pos rfl]; rfl⟩
  safe cur := by
    refine bind_safe (readBytes_safe n) fun bytes mid h => ?_
    rw [dif_pos (readBytes_length h)]
    exact fun h => by cases h

theorem fromUTF8_eq_some {bytes : List UInt8} {s : String} :
    String.fromUTF8? ⟨bytes.toArray⟩ = some s ↔ bytes = utf8 s := by
  unfold String.fromUTF8?
  constructor
  · intro h
    split at h
    · cases h
      rfl
    · cases h
  · rintro rfl
    exact dif_pos s.isValidUTF8

theorem readString_codec :
    Codec buf (readString buf) (fun s => (utf8 s).length ≤ 255) writeString where
  eq_ok {cur s cur'} hcur := by
    rw [readString, bind_eq_ok]
    constructor
    · rintro ⟨len, mid, hlen, h⟩
      obtain ⟨-, ⟨rest, hrest⟩, rfl⟩ := (readU8_codec.eq_ok hcur).1 hlen
      obtain ⟨hmid, hdrop⟩ := of_drop hcur hrest
      obtain ⟨bytes, end_, hbytes, h⟩ := bind_eq_ok.1 h
      obtain ⟨hlength, ⟨rest', hrest'⟩, rfl⟩ := (readBytes_eq_ok hmid).1 hbytes
      cases hs : String.fromUTF8? ⟨bytes.toArray⟩ with rw [hs] at h
      | none => cases h
      | some s' =>
        cases h
        rw [fromUTF8_eq_some.1 hs] at hlength hrest'
        have hwrite : writeString s = len :: utf8 s := by
          rw [writeString, hlength, UInt8.ofNat_toNat]
        rw [hwrite]
        refine ⟨hlength ▸ Nat.le_of_lt_succ len.toNat_lt, ⟨rest', ?_⟩, ?_⟩
        · rw [← hrest, ← hdrop, ← hrest']
          rfl
        · simp only [List.length_cons, List.length_nil]
          omega
    · rintro ⟨hle, ⟨rest, hrest⟩, rfl⟩
      have hnat : (UInt8.ofNat (utf8 s).length).toNat = (utf8 s).length :=
        Nat.mod_eq_of_lt (Nat.lt_succ_of_le hle)
      have hlen : [UInt8.ofNat (utf8 s).length] ++ (utf8 s ++ rest) = buf.drop cur := hrest
      obtain ⟨hmid, hdrop⟩ := of_drop hcur hlen
      refine ⟨_, _, (readU8_codec.eq_ok hcur).2 ⟨trivial, ⟨_, hlen⟩, rfl⟩, bind_eq_ok.2 ?_⟩
      refine ⟨utf8 s, _, (readBytes_eq_ok hmid).2 ⟨hnat.symm, ⟨rest, hdrop.symm⟩, rfl⟩, ?_⟩
      have hend : cur + 1 + (utf8 s).length = cur + (writeString s).length := by
        rw [writeString, List.length_cons]
        omega
      rw [fromUTF8_eq_some.2 rfl, hnat, ← hend]
      rfl
  safe cur := by
    refine bind_safe (readU8_codec.safe cur) fun len mid _ => ?_
    refine bind_safe (readBytes_safe _) fun bytes end_ _ => ?_
    cases String.fromUTF8? ⟨bytes.toArray⟩ <;> exact fun h => by cases h

theorem ofBeBytes_concat (bytes : List UInt8) (b : UInt8) :
    ofBeBytes (bytes ++ [b]) = ofBeBytes bytes * 256 + b.toNat := by
  simp [ofBeBytes]

theorem ofBeBytes_beBytes (k n : ℕ) : ofBeBytes (beBytes k n) = n % Nat.pow 256 k := by
  induction k generalizing n with
  | zero => exact (Nat.mod_one n).symm
  | succ k ih =>
    change _ = n % (Nat.pow 256 k * 256)
    rw [beBytes, ofBeBytes_concat, ih, Nat.mul_comm (Nat.pow 256 k), Nat.mod_mul, Nat.add_comm,
      Nat.mul_comm]
    rfl

theorem beBytes_ofBeBytes (bytes : List UInt8) :
    beBytes bytes.length (ofBeBytes bytes) = bytes := by
  induction bytes using List.reverseRecOn with
  | nil => rfl
  | append_singleton l b ih =>
    have hb := b.toNat_lt
    have hdiv : (ofBeBytes l * 256 + b.toNat) / 256 = ofBeBytes l := by omega
    rw [List.length_append, ofBeBytes_concat]
    change beBytes l.length _ ++ _ = _
    rw [hdiv, ih, List.append_cancel_left_eq, List.singleton_inj, ← UInt8.toNat_inj,
      UInt8.toNat_ofNat']
    omega

/-- The eight bytes of a number are those it is made from, in both directions. -/
theorem writeI64_eq {bytes : List UInt8} (h : bytes.length = 8) {x : Int64} :
    (UInt64.ofNat (ofBeBytes bytes)).toInt64 = x ↔ bytes = writeI64 x := by
  constructor
  · rintro rfl
    have hbytes := beBytes_ofBeBytes bytes
    rw [h] at hbytes
    have hnat : (UInt64.ofNat (ofBeBytes bytes)).toNat = ofBeBytes bytes :=
      UInt64.toNat_ofNat'.trans ((ofBeBytes_beBytes 8 _).symm.trans (congrArg _ hbytes))
    rw [writeI64, UInt64.toUInt64_toInt64, hnat, hbytes]
  · rintro rfl
    have hnat := (ofBeBytes_beBytes 8 _).trans (Nat.mod_eq_of_lt x.toUInt64.toNat_lt)
    rw [writeI64, hnat, UInt64.ofNat_toNat]
    rfl

theorem readI64_codec : Codec buf (readI64 buf) (fun _ => True) writeI64 where
  eq_ok {cur x cur'} hcur := by
    rw [readI64, bind_eq_ok]
    constructor
    · rintro ⟨⟨bytes, hlen⟩, mid, hread, h⟩
      obtain ⟨-, hpre, rfl⟩ := ((readArray_codec 8).eq_ok hcur).1 hread
      cases h
      rw [← (writeI64_eq hlen).1 rfl]
      exact ⟨trivial, hpre, rfl⟩
    · rintro ⟨-, hpre, rfl⟩
      refine ⟨⟨writeI64 x, rfl⟩, _, ((readArray_codec 8).eq_ok hcur).2 ⟨trivial, hpre, rfl⟩, ?_⟩
      have hx : (UInt64.ofNat (ofBeBytes (writeI64 x))).toInt64 = x := (writeI64_eq rfl).2 rfl
      exact congrArg (fun y => Except.ok (y, _)) hx
  safe cur := by
    refine bind_safe ((readArray_codec 8).safe cur) fun a mid _ => ?_
    exact fun h => by cases h

/-- One field after the other. -/
theorem Codec.both {m : Reader α} {n : Reader β} {P : α → Prop} {Q : β → Prop}
    {write : α → List UInt8} {write' : β → List UInt8} (hm : Codec buf m P write)
    (hn : Codec buf n Q write') :
    Codec buf (both m n) (fun x => P x.1 ∧ Q x.2) fun x => write x.1 ++ write' x.2 where
  eq_ok {cur x cur'} hcur := by
    obtain ⟨a, b⟩ := x
    rw [AuthToken.both, bind_eq_ok]
    constructor
    · rintro ⟨a', mid, ha, h⟩
      obtain ⟨b', end_, hb, h⟩ := bind_eq_ok.1 h
      cases h
      obtain ⟨hP, ⟨rest, hrest⟩, rfl⟩ := (hm.eq_ok hcur).1 ha
      obtain ⟨hmid, hdrop⟩ := of_drop hcur hrest
      obtain ⟨hQ, ⟨rest', hrest'⟩, rfl⟩ := (hn.eq_ok hmid).1 hb
      refine ⟨⟨hP, hQ⟩, ⟨rest', ?_⟩, ?_⟩
      · rw [List.append_assoc, hrest', hdrop, hrest]
      · rw [List.length_append, Nat.add_assoc]
    · rintro ⟨⟨hP, hQ⟩, ⟨rest, hrest⟩, rfl⟩
      rw [List.append_assoc] at hrest
      obtain ⟨hmid, hdrop⟩ := of_drop hcur hrest
      refine ⟨a, _, (hm.eq_ok hcur).2 ⟨hP, ⟨_, hrest⟩, rfl⟩, bind_eq_ok.2 ⟨b, _, ?_, rfl⟩⟩
      refine (hn.eq_ok hmid).2 ⟨hQ, ⟨rest, hdrop.symm⟩, ?_⟩
      rw [List.length_append, Nat.add_assoc]
  safe cur := by
    refine bind_safe (hm.safe cur) fun a mid _ => bind_safe (hn.safe mid) fun b end_ _ => ?_
    exact fun h => by cases h

end Codecs

/-! ## Payloads -/

def writeFields (x : Fields) : List UInt8 :=
  writeString x.1 ++ (writeString x.2.1 ++
    (writeI64 x.2.2.1 ++ (writeI64 x.2.2.2.1 ++ x.2.2.2.2.1)))

theorem readFields_codec (buf : List UInt8) :
    Codec buf (readFields buf) (fun x => (utf8 x.1).length ≤ 255 ∧ (utf8 x.2.1).length ≤ 255 ∧
      True ∧ True ∧ True) writeFields :=
  readString_codec.both (readString_codec.both (readI64_codec.both
    (readI64_codec.both (readArray_codec nonceLen))))

/-- Reading what follows the version comes to the end of the payload exactly if it is all fields. -/
theorem readFields_eq_ok {v : UInt8} {rest : List UInt8} {x} :
    readFields (v :: rest) 1 = .ok (x, (v :: rest).length) ↔
      ((utf8 x.1).length ≤ 255 ∧ (utf8 x.2.1).length ≤ 255) ∧ writeFields x = rest := by
  rw [(readFields_codec (v :: rest)).eq_ok (Nat.succ_le_succ (Nat.zero_le _))]
  simp only [and_true, List.drop_succ_cons, List.drop_zero, List.length_cons]
  constructor
  · rintro ⟨hle, hpre, hlen⟩
    exact ⟨hle, hpre.eq_of_length (by omega)⟩
  · rintro ⟨hle, rfl⟩
    exact ⟨hle, List.prefix_rfl, Nat.add_comm _ _⟩

variable {payload : List UInt8} {c : Claims}

/-- The fields of some claims. -/
def Claims.fields (c : Claims) : Fields :=
  (c.username, c.issuerRegion.str, c.issuedAt, c.expiresAt, c.nonce)

theorem encode_eq_some : encode c = some payload ↔
    ((utf8 c.username).length ≤ 255 ∧ (utf8 c.issuerRegion.str).length ≤ 255) ∧
      formatVersion :: writeFields c.fields = payload := by
  rw [encode]
  split
  · next h => simp [h, writeFields, Claims.fields]
  · next h => simp [h]

theorem claimsOf_eq_ok {x : Fields} : claimsOf x = .ok c ↔
    isValidRegion c.issuerRegion.str.toList = true ∧ x = c.fields := by
  obtain ⟨username, region, issuedAt, expiresAt, nonce⟩ := x
  rw [claimsOf]
  constructor
  · intro h
    split at h
    · next hregion =>
      cases h
      obtain ⟨hvalid, rfl⟩ := RegionId.parse_eq_ok.1 hregion
      simp [Claims.fields, hvalid]
    · cases h
  · rintro ⟨hvalid, hx⟩
    cases hx
    rw [RegionId.parse_str hvalid]

/-- **What is accepted is what was written.** -/
theorem decode_eq_ok : decode payload = .ok c ↔
    isValidRegion c.issuerRegion.str.toList = true ∧ encode c = some payload := by
  rw [encode_eq_some]
  cases payload with
  | nil =>
    have hempty : decode [] = .error (.verify .malformed) := rfl
    simp [hempty]
  | cons v rest =>
  have hdecode : decode (v :: rest) =
      if v ≠ formatVersion then .error (.verify (.unsupportedVersion v))
      else (readFields (v :: rest) 1).bind fun r =>
        if r.2 ≠ (v :: rest).length then .error (.verify .malformed) else claimsOf r.1 := rfl
  have hencode : ((utf8 c.username).length ≤ 255 ∧ (utf8 c.issuerRegion.str).length ≤ 255) ∧
      formatVersion :: writeFields c.fields = v :: rest ↔
      formatVersion = v ∧ readFields (v :: rest) 1 = .ok (c.fields, (v :: rest).length) := by
    rw [readFields_eq_ok, List.cons.injEq, and_left_comm]
    rfl
  rw [hencode, hdecode]
  by_cases hv : v = formatVersion
  · rw [if_neg (not_not.2 hv), hv]
    cases readFields (formatVersion :: rest) 1 with
    | error e => simp [Except.bind]
    | ok r =>
    obtain ⟨x, cur⟩ := r
    by_cases hcur : cur = (formatVersion :: rest).length
    · simp [Except.bind, hcur, claimsOf_eq_ok]
    · simp_all [Except.bind]
  · rw [if_pos hv]
    simp [Ne.symm hv]

theorem decode_safe (payload : List UInt8) : decode payload ≠ .error .outOfRange := by
  rw [decode]
  cases hversion : readU8 payload 0 with
  | error e => exact error_safe hversion (readU8_codec.safe 0)
  | ok r =>
  obtain ⟨v, cur⟩ := r
  change (if v ≠ formatVersion then _ else _) ≠ _
  split
  · exact fun h => by cases h
  cases hfields : readFields payload cur with
  | error e => exact error_safe hfields ((readFields_codec payload).safe cur)
  | ok r =>
  obtain ⟨x, cur⟩ := r
  change (if cur ≠ payload.length then _ else _) ≠ _
  split
  · exact fun h => by cases h
  · rw [claimsOf]
    cases RegionId.parse x.2.1.toList <;> exact fun h => by cases h

/-- **The payload and the claims determine each other.**  Claims whose texts fit are read back from
their payload exactly if their region is one that can be parsed; a payload that is accepted is the
one of the claims it is read as; and no payload is read outside its range. -/
theorem token_codec :
    (∀ c : Claims, (utf8 c.username).length ≤ 255 → (utf8 c.issuerRegion.str).length ≤ 255 →
      ∃ payload, encode c = some payload ∧
        (decode payload = .ok c ↔ isValidRegion c.issuerRegion.str.toList = true)) ∧
    (∀ payload c, decode payload = .ok c → encode c = some payload) ∧
    ∀ payload, decode payload ≠ .error .outOfRange := by
  refine ⟨fun c hu hr => ?_, fun payload c h => (decode_eq_ok.1 h).2, decode_safe⟩
  have hencode := encode_eq_some.2 ⟨⟨hu, hr⟩, rfl⟩
  exact ⟨_, hencode, decode_eq_ok.trans (and_iff_left hencode)⟩

/-- The claims of a user, as issued in a region. -/
def issued (region : String) : Claims :=
  ⟨"ada", ⟨region⟩, 1700000000, 1700003600, ⟨List.replicate 16 7, rfl⟩⟩

theorem issued_read_back :
    ∃ payload, encode (issued "stockholm") = some payload ∧
      decode payload = .ok (issued "stockholm") := by
  obtain ⟨payload, hencode, hdecode⟩ :=
    token_codec.1 (issued "stockholm") (by decide +kernel) (by decide +kernel)
  exact ⟨payload, hencode, hdecode.2 (by decide +kernel)⟩

/-- A region that was not checked when it was made is refused when it is read. -/
theorem unchecked_region_refused :
    (utf8 (issued "EU").username).length ≤ 255 ∧
      (utf8 (issued "EU").issuerRegion.str).length ≤ 255 ∧
      ∀ payload, encode (issued "EU") = some payload → decode payload ≠ .ok (issued "EU") := by
  refine ⟨by decide +kernel, by decide +kernel, fun payload _ h => ?_⟩
  exact absurd (decode_eq_ok.1 h).1 (by decide +kernel)

end Skyr.AuthToken

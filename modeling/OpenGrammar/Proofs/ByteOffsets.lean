import OpenGrammar.Text.Basic
import OpenGrammar.Proofs.Accessors

/-! Offsets into the bytes of a text. A part of a text is read back from its bytes if both its
ends lie between two characters. -/
namespace OpenGrammar
namespace Text

@[simp] theorem encode_nil : encode [] = [] := rfl

@[simp] theorem encode_cons (c : Char) (cs : Text) :
    encode (c :: cs) = String.utf8EncodeChar c ++ encode cs := rfl

@[simp] theorem encode_append (a b : Text) : encode (a ++ b) = encode a ++ encode b :=
  List.flatMap_append

@[simp] theorem utf8Size_nil : utf8Size [] = 0 := rfl

@[simp] theorem utf8Size_cons (c : Char) (cs : Text) :
    utf8Size (c :: cs) = c.utf8Size + utf8Size cs := rfl

@[simp] theorem utf8Size_append (a b : Text) : utf8Size (a ++ b) = utf8Size a + utf8Size b := by
  induction a with
  | nil => simp
  | cons c cs ih => simp [ih, Nat.add_assoc]

@[simp] theorem length_encode (t : Text) : (encode t).length = utf8Size t := by
  induction t with
  | nil => rfl
  | cons c cs ih => simp [ih]

theorem utf8Size_pos {t : Text} (h : t ≠ []) : 0 < utf8Size t := by
  cases t with
  | nil => exact absurd rfl h
  | cons c cs =>
    have hc := c.utf8Size_pos
    rw [utf8Size_cons]
    omega

/-- A text is read back from its bytes. -/
theorem decode?_encode (t : Text) : decode? (encode t) = some t := by
  have hbytes : ByteArray.mk (encode t).toArray = t.utf8Encode := by
    rw [← List.data_toByteArray]
    rfl
  rw [decode?, hbytes, List.utf8Decode?_utf8Encode]
  rfl

/-! The bytes of a character -/

def startsChar (b : UInt8) : Bool := b < 0x80 || 0xc0 ≤ b

def sizeOfFirst (b : UInt8) : Nat :=
  if b < 0x80 then 1 else if b < 0xe0 then 2 else if b < 0xf0 then 3 else 4

theorem utf8EncodeChar_of_lt {c : Char} (h : c.toNat < 128) :
    String.utf8EncodeChar c = [UInt8.ofNat c.toNat] := by
  have hsmall : c.val.toNat ≤ 0x7f := Nat.le_of_lt_succ h
  unfold String.utf8EncodeChar
  exact if_pos hsmall

theorem startsChar_ofNat {n : Nat} (h : n < 256) :
    startsChar (UInt8.ofNat n) = (decide (n < 0x80) || decide (0xc0 ≤ n)) := by
  simp [startsChar, UInt8.lt_iff_toNat_lt, UInt8.le_iff_toNat_le, Nat.mod_eq_of_lt h]

theorem sizeOfFirst_ofNat {n : Nat} (h : n < 256) :
    sizeOfFirst (UInt8.ofNat n) = if n < 0x80 then 1 else if n < 0xe0 then 2 else if n < 0xf0 then 3 else 4 := by
  simp [sizeOfFirst, UInt8.lt_iff_toNat_lt, Nat.mod_eq_of_lt h]

theorem further_byte (n : Nat) :
    startsChar (UInt8.ofNat (n % 0x40 + 0x80)) = false ∧ 128 ≤ (UInt8.ofNat (n % 0x40 + 0x80)).toNat := by
  have hlt : n % 0x40 + 0x80 < 256 := by omega
  rw [startsChar_ofNat hlt]
  simp only [UInt8.toNat_ofNat', Bool.or_eq_false_iff, decide_eq_false_iff_not]
  omega

theorem first_byte {n m : Nat} (hlo : 0xc0 ≤ n) (hn : n < 256)
    (hm : (if n < 0xe0 then 2 else if n < 0xf0 then 3 else 4) = m) :
    startsChar (UInt8.ofNat n) = true ∧ sizeOfFirst (UInt8.ofNat n) = m ∧ 128 ≤ (UInt8.ofNat n).toNat := by
  rw [startsChar_ofNat hn, sizeOfFirst_ofNat hn, if_neg (by omega)]
  simp only [UInt8.toNat_ofNat', Bool.or_eq_true, decide_eq_true_eq]
  omega

/-- Of the bytes of a character the first alone starts one, and it tells how many there are. -/
theorem exists_utf8EncodeChar_eq (c : Char) :
    ∃ b bs, String.utf8EncodeChar c = b :: bs ∧ startsChar b = true ∧ sizeOfFirst b = c.utf8Size ∧
      (128 ≤ c.toNat → 128 ≤ b.toNat) ∧ ∀ d ∈ bs, startsChar d = false ∧ 128 ≤ d.toNat := by
  have hlen := String.length_utf8EncodeChar c
  by_cases hascii : c.toNat < 128
  · rw [utf8EncodeChar_of_lt hascii] at hlen ⊢
    have hn : c.toNat < 256 := by omega
    refine ⟨_, [], rfl, ?_, ?_, fun h => absurd hascii (by omega), by simp⟩
    · rw [startsChar_ofNat hn]
      simp [hascii]
    · rw [sizeOfFirst_ofNat hn, if_pos hascii, ← hlen]
      rfl
  · have hone : ¬ c.val.toNat ≤ 0x7f := by
      rw [Char.toNat_val]
      omega
    unfold String.utf8EncodeChar at hlen ⊢
    simp only [if_neg hone] at hlen ⊢
    by_cases htwo : c.val.toNat ≤ 0x7ff
    · simp only [if_pos htwo] at hlen ⊢
      obtain ⟨hs, hf, hb⟩ := @first_byte (c.val.toNat / 64 % 0x20 + 0xc0) 2 (by omega) (by omega)
        (if_pos (by omega))
      refine ⟨_, _, rfl, hs, hf.trans hlen, fun _ => hb, ?_⟩
      simp only [List.forall_mem_cons, further_byte, List.not_mem_nil, false_implies, implies_true, and_self]
    by_cases hthree : c.val.toNat ≤ 0xffff
    · simp only [if_neg htwo, if_pos hthree] at hlen ⊢
      obtain ⟨hs, hf, hb⟩ := @first_byte (c.val.toNat / 4096 % 0x10 + 0xe0) 3 (by omega) (by omega)
        (by rw [if_neg (by omega), if_pos (by omega)])
      refine ⟨_, _, rfl, hs, hf.trans hlen, fun _ => hb, ?_⟩
      simp only [List.forall_mem_cons, further_byte, List.not_mem_nil, false_implies, implies_true, and_self]
    · simp only [if_neg htwo, if_neg hthree] at hlen ⊢
      obtain ⟨hs, hf, hb⟩ := @first_byte (c.val.toNat / 262144 % 0x08 + 0xf0) 4 (by omega) (by omega)
        (by rw [if_neg (by omega), if_neg (by omega)])
      refine ⟨_, _, rfl, hs, hf.trans hlen, fun _ => hb, ?_⟩
      simp only [List.forall_mem_cons, further_byte, List.not_mem_nil, false_implies, implies_true, and_self]

/-- A condition on characters that can be checked on each byte of them. -/
def Bytewise (p : Char → Bool) (q : UInt8 → Bool) : Prop :=
  ∀ c, ∀ b ∈ String.utf8EncodeChar c, q b = p c

/-- A condition that is told by the characters of one byte, and the same for all others. -/
theorem bytewise_of_ascii {p : Char → Bool} {q : UInt8 → Bool} (other : Bool)
    (hone : ∀ n < 128, q (UInt8.ofNat n) = p (Char.ofNat n))
    (hbyte : ∀ n < 256, 128 ≤ n → q (UInt8.ofNat n) = other)
    (hchar : ∀ c : Char, 128 ≤ c.toNat → p c = other) : Bytewise p q := by
  intro c b hb
  by_cases hc : c.toNat < 128
  · rw [utf8EncodeChar_of_lt hc, List.mem_singleton] at hb
    rw [hb]
    exact (hone _ hc).trans (by rw [Char.ofNat_toNat])
  · have hlarge : 128 ≤ b.toNat := by
      obtain ⟨d, ds, he, -, -, hd, hds⟩ := exists_utf8EncodeChar_eq c
      rw [he] at hb
      rcases List.mem_cons.1 hb with rfl | hb
      · exact hd (by omega)
      · exact (hds b hb).2
    have hother := hbyte b.toNat b.toNat_lt hlarge
    rw [UInt8.ofNat_toNat] at hother
    rw [hother, hchar c (by omega)]

/-- Each character of one byte is found byte by byte. -/
theorem bytewise_eq {d : Char} (hd : d.toNat < 128) : Bytewise (· == d) (· == UInt8.ofNat d.toNat) := by
  have hval : ∀ n < 256, ((UInt8.ofNat n == UInt8.ofNat d.toNat) = true ↔ n = d.toNat) := by
    intro n hn
    rw [beq_iff_eq, ← UInt8.toNat_inj]
    simp only [UInt8.toNat_ofNat']
    omega
  refine bytewise_of_ascii false (fun n hn => ?_) (fun n hn hlarge => ?_) (fun c hc => ?_)
  · rw [Bool.eq_iff_iff, hval n (by omega), beq_iff_eq]
    constructor
    · rintro rfl
      rw [Char.ofNat_toNat]
    · rintro rfl
      exact ((by decide : ∀ n < 128, (Char.ofNat n).toNat = n) n hn).symm
  · rw [Bool.eq_false_iff, Ne, hval n hn]
    omega
  · rw [beq_eq_false_iff_ne]
    rintro rfl
    omega

theorem Bytewise.not {p : Char → Bool} {q : UInt8 → Bool} (h : Bytewise p q) :
    Bytewise (! p ·) (! q ·) := fun c b hb => congrArg (! ·) (h c b hb)

theorem Bytewise.encode {p : Char → Bool} {q : UInt8 → Bool} (h : Bytewise p q) (t : Text) :
    (encode t).takeWhile q = encode (t.takeWhile p) := by
  induction t with
  | nil => rfl
  | cons c cs ih =>
    rw [encode_cons]
    cases hc : p c with
    | true =>
      rw [List.takeWhile_append_of_pos fun b hb => (h c b hb).trans hc, ih, List.takeWhile_cons_of_pos hc]
      rfl
    | false =>
      obtain ⟨b, bs, he, -⟩ := exists_utf8EncodeChar_eq c
      have hb : q b = false := (h c b (by simp [he])).trans hc
      rw [he, List.cons_append, List.takeWhile_cons_of_neg (by simp [hb]),
        List.takeWhile_cons_of_neg (by simp [hc])]
      rfl

/-! Boundaries and slices -/

/-- Whether the offset lies at the end of the bytes or before the first byte of a character. -/
def isBoundary (bytes : List UInt8) (offset : Nat) : Bool :=
  match bytes[offset]? with
  | some b => startsChar b
  | none => offset == bytes.length

/-- The part of a text between two offsets. There is none if an offset lies within a
character or behind the end. -/
def slice? (t : Text) (start stop : Nat) : Option Text :=
  if start ≤ stop ∧ isBoundary (encode t) start ∧ isBoundary (encode t) stop then
    decode? (((encode t).drop start).take (stop - start))
  else none

theorem isBoundary_append (a b : Text) : isBoundary (encode (a ++ b)) (utf8Size a) = true := by
  unfold isBoundary
  rw [encode_append, List.getElem?_append_right (by simp), length_encode, Nat.sub_self]
  cases b with
  | nil => simp
  | cons c cs =>
    obtain ⟨d, ds, he, hd, -⟩ := exists_utf8EncodeChar_eq c
    simp [he, hd]

theorem isBoundary_iff {t : Text} {offset : Nat} :
    isBoundary (encode t) offset = true ↔ ∃ a b, t = a ++ b ∧ utf8Size a = offset := by
  constructor
  · intro h
    induction t generalizing offset with
    | nil =>
      obtain rfl : offset = 0 := by simpa [isBoundary] using h
      exact ⟨[], [], rfl, rfl⟩
    | cons c cs ih =>
      by_cases hzero : offset = 0
      · exact ⟨[], c :: cs, rfl, by simp [hzero]⟩
      obtain ⟨b, bs, he, -, -, -, hbs⟩ := exists_utf8EncodeChar_eq c
      have hsize := String.length_utf8EncodeChar c
      by_cases hlt : offset < c.utf8Size
      · -- within the character
        obtain ⟨k, rfl⟩ := Nat.exists_eq_succ_of_ne_zero hzero
        have hk : k < bs.length := by
          rw [he, List.length_cons] at hsize
          omega
        have hget : (encode (c :: cs))[k + 1]? = some bs[k] := by
          rw [encode_cons, he, List.cons_append, List.getElem?_cons_succ,
            List.getElem?_append_left hk, List.getElem?_eq_getElem hk]
        have hmid : isBoundary (encode (c :: cs)) (k + 1) = false := by
          rw [isBoundary, hget]
          exact (hbs _ (List.getElem_mem hk)).1
        rw [hmid] at h
        cases h
      · have hrest : isBoundary (encode cs) (offset - c.utf8Size) = true := by
          unfold isBoundary at h ⊢
          rw [encode_cons, List.getElem?_append_right (by omega), hsize] at h
          rw [← h]
          split <;> simp_all
          omega
        obtain ⟨a, b', rfl, ha⟩ := ih hrest
        exact ⟨c :: a, b', rfl, by rw [utf8Size_cons, ha]; omega⟩
  · rintro ⟨a, b, rfl, rfl⟩
    exact isBoundary_append a b

theorem slice?_append (a b c : Text) :
    slice? (a ++ (b ++ c)) (utf8Size a) (utf8Size a + utf8Size b) = some b := by
  have hstop := isBoundary_append (a ++ b) c
  rw [List.append_assoc, utf8Size_append] at hstop
  rw [slice?, if_pos ⟨Nat.le_add_right _ _, isBoundary_append a (b ++ c), hstop⟩, encode_append,
    List.drop_left' (length_encode a), encode_append, Nat.add_sub_cancel_left,
    List.take_left' (length_encode b), decode?_encode]

/-! Intervals -/

/-- Intervals that are not empty and lie one behind the other, from one offset to another. -/
def Covers : Nat → List (Nat × Nat) → Nat → Prop
  | start, [], stop => start = stop
  | start, i :: is, stop => i.1 = start ∧ i.1 < i.2 ∧ Covers i.2 is stop

theorem Covers.le {start stop : Nat} {is : List (Nat × Nat)} (h : Covers start is stop) :
    start ≤ stop ∧ ∀ i ∈ is, start ≤ i.1 := by
  induction is generalizing start with
  | nil => exact ⟨Nat.le_of_eq h, by simp⟩
  | cons i is ih =>
    obtain ⟨rfl, hlt, hrest⟩ := h
    obtain ⟨hstop, hall⟩ := ih hrest
    refine ⟨by omega, fun j hj => ?_⟩
    rcases List.mem_cons.1 hj with rfl | hj
    · exact Nat.le_refl _
    · exact Nat.le_trans (Nat.le_of_lt hlt) (hall j hj)

/-- Each offset lies in one interval alone. -/
theorem Covers.existsUnique {start stop n : Nat} {is : List (Nat × Nat)} (h : Covers start is stop)
    (hlo : start ≤ n) (hhi : n < stop) : ∃! i, i ∈ is ∧ i.1 ≤ n ∧ n < i.2 := by
  induction is generalizing start with
  | nil =>
    obtain rfl : start = stop := h
    omega
  | cons i is ih =>
    obtain ⟨rfl, hlt, hrest⟩ := h
    by_cases hn : n < i.2
    · refine ⟨i, ⟨by simp, hlo, hn⟩, fun j ⟨hj, hle, _⟩ => ?_⟩
      rcases List.mem_cons.1 hj with rfl | hj
      · rfl
      · have := hrest.le.2 j hj
        omega
    · obtain ⟨j, ⟨hj, hle, hgt⟩, huniq⟩ := ih hrest (by omega)
      refine ⟨j, ⟨List.mem_cons_of_mem _ hj, hle, hgt⟩, fun k ⟨hk, hkl, hkg⟩ => ?_⟩
      rcases List.mem_cons.1 hk with rfl | hk
      · omega
      · exact huniq k ⟨hk, hkl, hkg⟩

end Text
end OpenGrammar

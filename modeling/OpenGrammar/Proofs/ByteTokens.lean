import OpenGrammar.Proofs.ByteOffsets
import OpenGrammar.Proofs.TokenBoundaries

/-! Tokens read byte by byte. A text is held as its bytes, and the tokens in it are found by
looking at one byte after the other, as if each were a character. The cuts that this makes
are those between the tokens of the text: none of them is within a character. -/
namespace OpenGrammar

/-- A token as the range of bytes that it takes up. -/
structure Cut where
  kind : TokenKind
  start : Nat
  stop : Nat
  deriving DecidableEq, Repr

namespace ByteScan

def isAlpha (b : UInt8) : Bool := (0x41 ≤ b && b ≤ 0x5a) || (0x61 ≤ b && b ≤ 0x7a)

def isDigit (b : UInt8) : Bool := 0x30 ≤ b && b ≤ 0x39

def isIdentStart (b : UInt8) : Bool := isAlpha b || b == 0x5f

def isIdentPart (b : UInt8) : Bool := isAlpha b || isDigit b || b == 0x5f

def isGap (b : UInt8) : Bool := b == 0x20 || b == 0x09 || b == 0x0a || b == 0x0c || b == 0x0d

/-- How far the search for a closing quote goes. It passes over a backslash and the byte
behind it at once, and so over the end of the bytes if there is no such byte. -/
def passed (quote : UInt8) : List UInt8 → Nat
  | [] => 0
  | b :: bs =>
    if b = quote then 0
    else if b = 0x5c then
      match bs with
      | [] => 2
      | _ :: ds => 2 + passed quote ds
    else 1 + passed quote bs

def find? (mark : List UInt8) : List UInt8 → Option Nat
  | [] => if mark.isEmpty then some 0 else none
  | b :: bs => if mark.isPrefixOf (b :: bs) then some 0 else (find? mark bs).map (· + 1)

/-- The kind and the size of the token that the bytes start with. There is none where the bytes
start within a character that would be a token. -/
def first? (bytes : List UInt8) : Option (TokenKind × Nat) :=
  match bytes with
  | [] => none
  | b :: bs =>
    if isIdentStart b then some (.identifier, 1 + (bs.takeWhile isIdentPart).length)
    else if isDigit b then some (.number, 1 + (bs.takeWhile isIdentPart).length)
    else if b = 0x27 ∨ b = 0x22 then some (.literal, min (1 + passed b bs + 1) bytes.length)
    else if [0x2f, 0x2f].isPrefixOf bytes then
      some (.lineComment, (find? [0x0a] bytes).getD bytes.length)
    else if [0x2f, 0x2a].isPrefixOf bytes then
      some (.blockComment, ((find? [0x2a, 0x2f] (bytes.drop 2)).map (2 + · + 2)).getD bytes.length)
    else if isGap b then some (.whitespace, (bytes.takeWhile isGap).length)
    else if Text.startsChar b then some (.symbol, Text.sizeOfFirst b)
    else none

theorem sizeOfFirst_pos (b : UInt8) : 0 < Text.sizeOfFirst b := by
  unfold Text.sizeOfFirst
  repeat' split
  all_goals omega

/-- No token is empty. -/
theorem first?_pos {bytes : List UInt8} {kind : TokenKind} {size : Nat}
    (h : first? bytes = some (kind, size)) : 0 < size := by
  cases bytes with
  | nil => cases h
  | cons b bs =>
    simp only [first?] at h
    split at h
    · obtain ⟨-, rfl⟩ := Prod.mk.inj (Option.some.inj h)
      omega
    split at h
    · obtain ⟨-, rfl⟩ := Prod.mk.inj (Option.some.inj h)
      omega
    split at h
    · obtain ⟨-, rfl⟩ := Prod.mk.inj (Option.some.inj h)
      simp only [List.length_cons]
      omega
    split at h
    · rename_i hmark
      obtain ⟨rest, he⟩ := List.isPrefixOf_iff_prefix.1 hmark
      obtain ⟨-, rfl⟩ := Prod.mk.inj (Option.some.inj h)
      rw [← he]
      cases hf : find? [0x0a] rest <;> simp [find?, hf]
    split at h
    · obtain ⟨-, rfl⟩ := Prod.mk.inj (Option.some.inj h)
      cases find? [0x2a, 0x2f] ((b :: bs).drop 2) <;> simp
    split at h
    · rename_i hgap
      obtain ⟨-, rfl⟩ := Prod.mk.inj (Option.some.inj h)
      simp [hgap]
    split at h
    · obtain ⟨-, rfl⟩ := Prod.mk.inj (Option.some.inj h)
      exact sizeOfFirst_pos b
    · cases h

def scan (bytes : List UInt8) (pos : Nat) : Option (List Cut) :=
  if _hpos : pos < bytes.length then
    match _hfirst : first? (bytes.drop pos) with
    | none => none
    | some (kind, size) => (scan bytes (pos + size)).map (⟨kind, pos, pos + size⟩ :: ·)
  else some []
termination_by bytes.length - pos
decreasing_by
  have := first?_pos _hfirst
  omega

/-! Bytes of characters -/

open Text (Bytewise bytewise_of_ascii bytewise_eq encode encode_cons utf8EncodeChar_of_lt utf8Size)

theorem bytewise_isIdentPart : Bytewise Token.isIdentPart isIdentPart :=
  bytewise_of_ascii false (by decide) (by decide +kernel) fun c hc => by
    by_contra h
    have := Text.lt_of_isIdentPart (Bool.of_not_eq_false h)
    omega

theorem bytewise_isIdentStart : Bytewise Token.isIdentStart isIdentStart :=
  bytewise_of_ascii false (by decide) (by decide +kernel) fun c hc => by
    by_contra h
    have := Text.lt_of_isIdentPart (Token.isIdentPart_of_isIdentStart (Bool.of_not_eq_false h))
    omega

theorem isIdentPart_of_isDigit {c : Char} (h : c.isDigit = true) : Token.isIdentPart c = true := by
  simp [Token.isIdentPart, Char.isAlphanum, h]

theorem bytewise_isDigit : Bytewise Char.isDigit isDigit :=
  bytewise_of_ascii false (by decide) (by decide +kernel) fun c hc => by
    by_contra h
    have := Text.lt_of_isIdentPart (isIdentPart_of_isDigit (Bool.of_not_eq_false h))
    omega

theorem lt_of_isGap {c : Char} (h : Token.isGap c = true) : c.toNat < 128 := by
  simp only [Token.isGap, Bool.or_eq_true, beq_iff_eq] at h
  rcases h with (((rfl | rfl) | rfl) | rfl) | rfl <;> decide

theorem bytewise_isGap : Bytewise Token.isGap isGap :=
  bytewise_of_ascii false (by decide) (by decide +kernel) fun c hc => by
    by_contra h
    have := lt_of_isGap (Bool.of_not_eq_false h)
    omega

theorem encode_of_lt {c : Char} (h : c.toNat < 128) (cs : Text) :
    encode (c :: cs) = UInt8.ofNat c.toNat :: encode cs := by
  rw [encode_cons, utf8EncodeChar_of_lt h]
  rfl

theorem utf8Size_of_lt {c : Char} (h : c.toNat < 128) : c.utf8Size = 1 := by
  rw [← String.length_utf8EncodeChar, utf8EncodeChar_of_lt h]
  rfl

theorem isPrefixOf_encode {d : Char} (hd : d.toNat < 128) (t : Text) :
    [UInt8.ofNat d.toNat].isPrefixOf (encode t) = (t.head? == some d) := by
  cases t with
  | nil => rfl
  | cons c cs =>
    obtain ⟨b, bs, he, -⟩ := Text.exists_utf8EncodeChar_eq c
    have hb : (b == UInt8.ofNat d.toNat) = (c == d) := bytewise_eq hd c b (by simp [he])
    rw [encode_cons, he, List.cons_append, List.isPrefixOf_cons_cons, List.isPrefixOf_nil_left,
      Bool.and_true, BEq.comm, hb]
    rfl

theorem length_takeWhile_encode {p : Char → Bool} {q : UInt8 → Bool} (h : Bytewise p q) (t : Text) :
    ((encode t).takeWhile q).length = utf8Size (t.takeWhile p) := by
  rw [h.encode, Text.length_encode]

/-! Literals -/

theorem passed_append {quote : UInt8} {bs : List UInt8} (h : ∀ b ∈ bs, b ≠ quote ∧ b ≠ 0x5c)
    (rest : List UInt8) : passed quote (bs ++ rest) = bs.length + passed quote rest := by
  induction bs with
  | nil => simp
  | cons b bs ih =>
    have hb := h b (by simp)
    rw [List.cons_append, passed.eq_def]
    simp only [if_neg hb.1, if_neg hb.2, ih fun d hd => h d (List.mem_cons_of_mem _ hd),
      List.length_cons]
    omega

/-- The byte behind a backslash is passed unseen, and what is left of its character is no quote
and no backslash. -/
theorem passed_escape {quote : UInt8} (hq : quote = 0x27 ∨ quote = 0x22) (d : Char) (ds : Text) :
    passed quote (0x5c :: encode (d :: ds)) = 1 + d.utf8Size + passed quote (encode ds) := by
  obtain ⟨b, bs, he, -, -, -, hbs⟩ := Text.exists_utf8EncodeChar_eq d
  have hlen := String.length_utf8EncodeChar d
  have hmore : ∀ e ∈ bs, e ≠ quote ∧ e ≠ 0x5c := by
    intro e hm
    have hlarge := (hbs e hm).2
    rcases hq with rfl | rfl
    · constructor <;> rintro rfl <;> exact absurd hlarge (by decide)
    · constructor <;> rintro rfl <;> exact absurd hlarge (by decide)
  have hquote : (0x5c : UInt8) ≠ quote := by
    rcases hq with rfl | rfl <;> decide
  rw [he, List.length_cons] at hlen
  rw [encode_cons, he, List.cons_append, passed.eq_def]
  simp only [if_neg hquote, if_true, passed_append hmore]
  omega

theorem min_passed {quote : Char} (hq : quote = '\'' ∨ quote = '"') (cs : Text) :
    min (passed (UInt8.ofNat quote.toNat) (encode cs) + 1) (utf8Size cs) =
      utf8Size (Token.literalTail quote cs).1 := by
  have hlt : quote.toNat < 128 := by rcases hq with rfl | rfl <;> decide
  have hbyte : UInt8.ofNat quote.toNat = 0x27 ∨ UInt8.ofNat quote.toNat = 0x22 := by
    rcases hq with rfl | rfl
    · exact Or.inl rfl
    · exact Or.inr rfl
  fun_induction Token.literalTail quote cs with
  | case1 => rfl
  | case2 cs =>
    rw [encode_of_lt hlt, passed.eq_def]
    simp [utf8Size_of_lt hlt]
  | case3 hc =>
    rcases hq with rfl | rfl <;> rfl
  | case4 d ds hc ih =>
    have hsize : Char.utf8Size '\\' = 1 := rfl
    have hescape : encode ('\\' :: d :: ds) = 0x5c :: encode (d :: ds) := rfl
    rw [hescape, passed_escape hbyte]
    simp only [Text.utf8Size_cons, hsize, Prod.map, ← ih]
    omega
  | case5 c cs hc hne ih =>
    have hplain : ∀ b ∈ String.utf8EncodeChar c, b ≠ UInt8.ofNat quote.toNat ∧ b ≠ 0x5c := by
      intro b hb
      have hquote : (b == UInt8.ofNat quote.toNat) = (c == quote) := bytewise_eq hlt c b hb
      have hslash : (b == 0x5c) = (c == '\\') := @bytewise_eq '\\' (by decide) c b hb
      rw [beq_eq_false_iff_ne.2 hc, beq_eq_false_iff_ne] at hquote
      rw [beq_eq_false_iff_ne.2 hne, beq_eq_false_iff_ne] at hslash
      exact ⟨hquote, hslash⟩
    rw [encode_cons, passed_append hplain, String.length_utf8EncodeChar]
    simp only [Text.utf8Size_cons, Prod.map, ← ih]
    omega

/-! Comments -/

theorem find?_append {mark bs : List UInt8} {m : UInt8} (h : ∀ b ∈ bs, b ≠ m) (rest : List UInt8) :
    find? (m :: mark) (bs ++ rest) = (find? (m :: mark) rest).map (bs.length + ·) := by
  induction bs with
  | nil => simp
  | cons b bs ih =>
    have hb : (m == b) = false := beq_eq_false_iff_ne.2 (h b (by simp)).symm
    rw [List.cons_append, find?, List.isPrefixOf_cons_cons, hb, Bool.false_and, if_neg Bool.false_ne_true,
      ih fun d hd => h d (List.mem_cons_of_mem _ hd), Option.map_map]
    congr 1
    funext n
    simp only [Function.comp_apply, List.length_cons]
    omega

theorem find?_lineEnd (t : Text) :
    (find? [0x0a] (encode t)).getD (utf8Size t) = utf8Size (t.takeWhile (· != '\n')) := by
  induction t with
  | nil => rfl
  | cons c cs ih =>
    by_cases hc : c = '\n'
    · subst hc
      rfl
    · have hplain : ∀ b ∈ String.utf8EncodeChar c, b ≠ 0x0a := by
        intro b hb
        have hline : (b == 0x0a) = (c == '\n') := @bytewise_eq '\n' (by decide) c b hb
        rwa [beq_eq_false_iff_ne.2 hc, beq_eq_false_iff_ne] at hline
      rw [encode_cons, find?_append hplain, String.length_utf8EncodeChar,
        List.takeWhile_cons_of_pos (by simpa using hc), Text.utf8Size_cons, Text.utf8Size_cons, ← ih]
      cases find? [0x0a] (encode cs) <;> rfl

theorem find?_blockEnd (t : Text) :
    ((find? [0x2a, 0x2f] (encode t)).map (· + 2)).getD (utf8Size t) = utf8Size (Token.blockTail t).1 := by
  fun_induction Token.blockTail t with
  | case1 => rfl
  | case2 cs => rfl
  | case3 c cs hne ih =>
    have hskip : find? [0x2a, 0x2f] (encode (c :: cs)) =
        (find? [0x2a, 0x2f] (encode cs)).map (c.utf8Size + ·) := by
      by_cases hc : c = '*'
      · -- a star that no slash follows
        subst hc
        have hslash : ([0x2f] : List UInt8).isPrefixOf (encode cs) = false := by
          rw [show (0x2f : UInt8) = UInt8.ofNat ('/').toNat from rfl, isPrefixOf_encode (by decide),
            beq_eq_false_iff_ne]
          intro hh
          obtain ⟨ds, rfl⟩ := List.head?_eq_some_iff.1 hh
          exact hne ds rfl rfl
        rw [encode_of_lt (by decide), find?,
          List.isPrefixOf_cons_cons, hslash, Bool.and_false, if_neg Bool.false_ne_true]
        congr 1
        funext n
        exact Nat.add_comm n 1
      · have hplain : ∀ b ∈ String.utf8EncodeChar c, b ≠ 0x2a := by
          intro b hb
          have hstar : (b == 0x2a) = (c == '*') := @bytewise_eq '*' (by decide) c b hb
          rwa [beq_eq_false_iff_ne.2 hc, beq_eq_false_iff_ne] at hstar
        rw [encode_cons, find?_append hplain, String.length_utf8EncodeChar]
    rw [hskip, Text.utf8Size_cons]
    simp only [Prod.map, Text.utf8Size_cons, ← ih, Option.map_map]
    cases find? [0x2a, 0x2f] (encode cs) with
    | none => rfl
    | some n =>
      simp only [Option.map_some, Option.getD_some, Function.comp_apply]
      omega

/-! Tokens -/

theorem isPrefixOf_mark {d : Char} (hd : d.toNat < 128) (cs : Text) :
    [0x2f, UInt8.ofNat d.toNat].isPrefixOf (0x2f :: encode cs) = (cs.head? == some d) := by
  rw [List.isPrefixOf_cons_cons, isPrefixOf_encode hd, beq_self_eq_true, Bool.true_and]

theorem first?_slash (cs : Text) :
    first? (0x2f :: encode cs) =
      some ((Token.first '/' cs).1, utf8Size ('/' :: (Token.first '/' cs).2.1)) := by
  have hline : [0x2f, 0x2f].isPrefixOf (0x2f :: encode cs) = (cs.head? == some '/') :=
    isPrefixOf_mark (d := '/') (by decide) cs
  have hblock : [0x2f, 0x2a].isPrefixOf (0x2f :: encode cs) = (cs.head? == some '*') :=
    isPrefixOf_mark (d := '*') (by decide) cs
  have hone : Char.utf8Size '/' = 1 := rfl
  have hword : isIdentStart 0x2f = false ∧ isDigit 0x2f = false ∧
      ¬ ((0x2f : UInt8) = 0x27 ∨ (0x2f : UInt8) = 0x22) ∧ isGap 0x2f = false := by decide
  simp only [first?, hword, hline, hblock, Bool.false_eq_true, if_false, List.length_cons,
    Text.length_encode, Text.utf8Size_cons, hone]
  by_cases hd : ∀ d ∈ cs.head?, d ≠ '/' ∧ d ≠ '*'
  · have hslash : (cs.head? == some '/') = false := beq_eq_false_iff_ne.2 fun hh => (hd _ hh).1 rfl
    have hstar : (cs.head? == some '*') = false := beq_eq_false_iff_ne.2 fun hh => (hd _ hh).2 rfl
    rw [Token.first_of_slash hd, hslash, hstar]
    rfl
  · obtain ⟨d, ds, rfl, hmark⟩ := Token.exists_mark_of_not hd
    rcases hmark with rfl | rfl
    · have hend := find?_lineEnd ('/' :: '/' :: ds)
      rw [Token.first_lineComment, Nat.add_comm (utf8Size _) 1]
      exact congrArg (fun n => some (TokenKind.lineComment, n)) hend
    · have hend := find?_blockEnd ds
      have hslash : (('*' :: ds).head? == some '/') = false := rfl
      rw [Token.first_blockComment, hslash]
      have hbytes : (0x2f :: encode ('*' :: ds)).drop 2 = encode ds := rfl
      have hstar : (('*' :: ds).head? == some '*') = true := rfl
      simp only [hbytes, hstar, Bool.false_eq_true, if_false, if_true, Prod.map, Text.utf8Size_cons, ← hend]
      cases find? [0x2a, 0x2f] (encode ds) with
      | none =>
        simp only [Option.map_none, Option.getD_none]
        rw [Nat.add_comm]
      | some n =>
        simp only [Option.map_some, Option.getD_some, show Char.utf8Size '*' = 1 from rfl]
        congr 2
        omega

/-- The first token of a text takes up as many bytes as it is read from. -/
theorem first?_encode (c : Char) (cs : Text) :
    first? (encode (c :: cs)) = some ((Token.first c cs).1, utf8Size (c :: (Token.first c cs).2.1)) := by
  rcases Token.char_cases c with h | ⟨hs, h⟩ | h | rfl | h | h
  · have hlt := Text.lt_of_isIdentPart (Token.isIdentPart_of_isIdentStart h)
    have hb : isIdentStart (UInt8.ofNat c.toNat) = true := by
      rw [bytewise_isIdentStart c _ (by simp [utf8EncodeChar_of_lt hlt]), h]
    rw [encode_of_lt hlt, Token.first_of_identStart h, Text.utf8Size_cons, utf8Size_of_lt hlt,
      ← length_takeWhile_encode bytewise_isIdentPart]
    simp only [first?, if_pos hb]
  · have hlt := Text.lt_of_isIdentPart (isIdentPart_of_isDigit h)
    have hbyte : UInt8.ofNat c.toNat ∈ String.utf8EncodeChar c := by simp [utf8EncodeChar_of_lt hlt]
    have hb : isIdentStart (UInt8.ofNat c.toNat) = false := by
      rw [bytewise_isIdentStart c _ hbyte, hs]
    have hdigit : isDigit (UInt8.ofNat c.toNat) = true := by
      rw [bytewise_isDigit c _ hbyte, h]
    rw [encode_of_lt hlt, Token.first_of_digit hs h, Text.utf8Size_cons, utf8Size_of_lt hlt,
      ← length_takeWhile_encode bytewise_isIdentPart]
    simp only [first?, hb, hdigit, if_true, Bool.false_eq_true, if_false]
  · have hlt : c.toNat < 128 := by rcases h with rfl | rfl <;> decide
    have hword : isIdentStart (UInt8.ofNat c.toNat) = false ∧ isDigit (UInt8.ofNat c.toNat) = false ∧
        (UInt8.ofNat c.toNat = 0x27 ∨ UInt8.ofNat c.toNat = 0x22) := by
      rcases h with rfl | rfl <;> decide
    have hmin := min_passed h cs
    rw [encode_of_lt hlt, Token.first_of_quote h, Text.utf8Size_cons, utf8Size_of_lt hlt, ← hmin]
    simp only [first?, hword, if_true, Bool.false_eq_true, if_false, List.length_cons,
      Text.length_encode]
    congr 2
    omega
  · exact first?_slash cs
  · have hlt := lt_of_isGap h
    have hspan := length_takeWhile_encode bytewise_isGap (c :: cs)
    rw [encode_of_lt hlt, List.takeWhile_cons_of_pos h] at hspan
    have hword : ∀ n < 128, Token.isGap (Char.ofNat n) = true →
        isIdentStart (UInt8.ofNat n) = false ∧ isDigit (UInt8.ofNat n) = false ∧
          ¬ (UInt8.ofNat n = 0x27 ∨ UInt8.ofNat n = 0x22) ∧ (0x2f == UInt8.ofNat n) = false ∧
          isGap (UInt8.ofNat n) = true := by decide +kernel
    obtain ⟨hi, hd, hq, hm, hg⟩ := hword c.toNat hlt (by rwa [Char.ofNat_toNat])
    rw [encode_of_lt hlt, Token.first_of_gap h]
    simp only [first?, hi, hd, hq, hm, hg, if_true, Bool.false_eq_true, if_false,
      List.isPrefixOf_cons_cons, Bool.false_and, hspan]
  · obtain ⟨b, bs, he, hstart, hsize, -⟩ := Text.exists_utf8EncodeChar_eq c
    have hbyte : b ∈ String.utf8EncodeChar c := by simp [he]
    rw [Token.first_of_plain h, encode_cons, he]
    simp only [Token.isPlain, Bool.not_eq_true', Bool.or_eq_false_iff, beq_eq_false_iff_ne] at h
    obtain ⟨⟨⟨⟨⟨hi, hd⟩, hsingle⟩, hdouble⟩, hslash⟩, hg⟩ := h
    have hne : ∀ {d : Char}, d.toNat < 128 → c ≠ d → b ≠ UInt8.ofNat d.toNat := by
      intro d hlt hcd
      have hbd : (b == UInt8.ofNat d.toNat) = (c == d) := bytewise_eq hlt c b hbyte
      rwa [beq_eq_false_iff_ne.2 hcd, beq_eq_false_iff_ne] at hbd
    rw [← bytewise_isIdentStart c b hbyte] at hi
    rw [← bytewise_isDigit c b hbyte] at hd
    rw [← bytewise_isGap c b hbyte] at hg
    have hquote : ¬ (b = 0x27 ∨ b = 0x22) :=
      not_or.2 ⟨hne (d := '\'') (by decide) hsingle, hne (d := '"') (by decide) hdouble⟩
    have hmark : (0x2f == b) = false := beq_eq_false_iff_ne.2 (hne (d := '/') (by decide) hslash).symm
    simp only [first?, List.cons_append, hi, hd, hg, hquote, hmark, hstart, Bool.false_eq_true,
      if_false, if_true, List.isPrefixOf_cons_cons, Bool.false_and, hsize, Text.utf8Size_cons,
      Text.utf8Size_nil, Nat.add_zero]

/-! The whole text -/

theorem scan_of_le {bytes : List UInt8} {pos : Nat} (h : bytes.length ≤ pos) : scan bytes pos = some [] := by
  rw [scan, dif_neg (by omega)]

theorem scan_of_first? {bytes : List UInt8} {pos size : Nat} {kind : TokenKind}
    (h : first? (bytes.drop pos) = some (kind, size)) :
    scan bytes pos = (scan bytes (pos + size)).map (⟨kind, pos, pos + size⟩ :: ·) := by
  have hpos : pos < bytes.length := by
    by_contra hle
    rw [List.drop_eq_nil_of_le (by omega)] at h
    cases h
  rw [scan, dif_pos hpos]
  split
  · rename_i hnone
    rw [h] at hnone
    cases hnone
  · rename_i hsome
    rw [h] at hsome
    obtain ⟨rfl, rfl⟩ := Prod.mk.inj (Option.some.inj hsome)
    rfl

def cutOf (s : Token × Nat × Nat) : Cut := ⟨s.1.kind, s.2.1, s.2.2⟩

theorem scan_append (a b : Text) :
    scan (encode (a ++ b)) (utf8Size a) =
      some ((Token.spans (utf8Size a) (Token.tokenize b)).map cutOf) := by
  induction hlen : b.length using Nat.strongRecOn generalizing a b with
  | ind n ih =>
    cases b with
    | nil =>
      rw [List.append_nil, scan_of_le (by simp), Token.tokenize]
      rfl
    | cons c cs =>
      have hfirst : first? ((encode (a ++ c :: cs)).drop (utf8Size a)) =
          some ((Token.first c cs).1, utf8Size (c :: (Token.first c cs).2.1)) := by
        rw [Text.encode_append, List.drop_left' (Text.length_encode a), first?_encode]
      have happend : a ++ c :: cs = (a ++ c :: (Token.first c cs).2.1) ++ (Token.first c cs).2.2 := by
        rw [List.append_assoc, List.cons_append, Token.first_append]
      have hrest := ih (Token.first c cs).2.2.length
        (by have := Token.length_first_rest c cs; simp only [List.length_cons] at hlen; omega)
        (a ++ c :: (Token.first c cs).2.1) _ rfl
      rw [← happend, Text.utf8Size_append] at hrest
      rw [scan_of_first? hfirst, hrest, Token.tokenize]
      rfl

end ByteScan

namespace Token

open Text (Covers encode isBoundary slice? utf8Size)

theorem map_fst_spans (start : Nat) (toks : List Token) : (spans start toks).map Prod.fst = toks := by
  induction toks generalizing start with
  | nil => rfl
  | cons tok toks ih => rw [spans, List.map_cons, ih]

theorem covers_spans (start : Nat) (toks : List Token) (h : ∀ tok ∈ toks, tok.text ≠ []) :
    Covers start ((spans start toks).map Prod.snd) (start + utf8Size (spell toks)) := by
  induction toks generalizing start with
  | nil => exact Nat.add_zero start |>.symm
  | cons tok toks ih =>
    have hpos := Text.utf8Size_pos (h tok (by simp))
    have hrest := ih (start + utf8Size tok.text) fun t ht => h t (List.mem_cons_of_mem _ ht)
    rw [spell_cons, Text.utf8Size_append, ← Nat.add_assoc]
    exact ⟨rfl, Nat.lt_add_of_pos_right hpos, hrest⟩

/-- A token with its offsets stands between two others or at an end of the text. -/
theorem exists_of_mem_spans {front : Text} {toks : List Token} {s : Token × Nat × Nat}
    (h : s ∈ spans (utf8Size front) toks) :
    ∃ a b, front ++ spell toks = a ++ (s.1.text ++ b) ∧ s.2.1 = utf8Size a ∧
      s.2.2 = utf8Size a + utf8Size s.1.text := by
  induction toks generalizing front with
  | nil => cases h
  | cons tok toks ih =>
    rcases List.mem_cons.1 h with rfl | h
    · exact ⟨front, spell toks, by simp, rfl, rfl⟩
    · rw [← Text.utf8Size_append] at h
      obtain ⟨a, b, he, hstart, hstop⟩ := ih h
      exact ⟨a, b, by rw [← he, spell_cons, List.append_assoc], hstart, hstop⟩

end Token

namespace ByteScan

open Text (Covers encode isBoundary slice? utf8Size)

section Cuts

variable {t : Text} {s : Token × Nat × Nat} (hs : s ∈ Token.spans 0 (Token.tokenize t))
include hs

theorem exists_parts :
    ∃ a b, t = a ++ (s.1.text ++ b) ∧ (cutOf s).start = utf8Size a ∧
      (cutOf s).stop = utf8Size a + utf8Size s.1.text := by
  obtain ⟨a, b, he, hstart, hstop⟩ := @Token.exists_of_mem_spans [] _ _ hs
  rw [List.nil_append, Token.spell_tokenize] at he
  exact ⟨a, b, he, hstart, hstop⟩

theorem isBoundary_cutOf :
    isBoundary (encode t) (cutOf s).start = true ∧ isBoundary (encode t) (cutOf s).stop = true := by
  obtain ⟨a, b, he, hstart, hstop⟩ := exists_parts hs
  constructor
  · exact Text.isBoundary_iff.2 ⟨a, _, he, hstart.symm⟩
  · refine Text.isBoundary_iff.2 ⟨a ++ s.1.text, b, by rw [he, List.append_assoc], ?_⟩
    rw [Text.utf8Size_append, hstop]

theorem slice?_cutOf :
    (slice? t (cutOf s).start (cutOf s).stop).map (Token.mk (cutOf s).kind) = some s.1 := by
  obtain ⟨a, b, he, hstart, hstop⟩ := exists_parts hs
  rw [hstart, hstop]
  conv_lhs => rw [he, Text.slice?_append]
  rfl

end Cuts

/-- The bytes of every text are cut into tokens without loss. The cuts are those between the
tokens of the text. They lie between characters and follow each other from the first byte to
the last, so that each slice exists and is the text of its token. -/
theorem scan_encode (t : Text) :
    ∃ cuts, scan (encode t) 0 = some cuts ∧
      cuts = (Token.spans 0 (Token.tokenize t)).map cutOf ∧
      Covers 0 (cuts.map fun cut => (cut.start, cut.stop)) (encode t).length ∧
      (∀ cut ∈ cuts, isBoundary (encode t) cut.start = true ∧ isBoundary (encode t) cut.stop = true) ∧
      cuts.map (fun cut => (slice? t cut.start cut.stop).map (Token.mk cut.kind)) =
        (Token.tokenize t).map some ∧
      Token.spell (Token.tokenize t) = t := by
  refine ⟨_, scan_append [] t, rfl, ?_, ?_, ?_, Token.spell_tokenize t⟩
  · have hcovers := Token.covers_spans 0 (Token.tokenize t) fun tok ht =>
      (Token.leads_of_mem_tokenize ht).ne_nil
    rw [Token.spell_tokenize, Nat.zero_add] at hcovers
    rw [List.map_map, Text.length_encode]
    exact hcovers
  · intro cut hc
    obtain ⟨s, hs, rfl⟩ := List.mem_map.1 hc
    exact isBoundary_cutOf hs
  · conv_rhs => rw [← Token.map_fst_spans 0 (Token.tokenize t), List.map_map]
    rw [List.map_map]
    exact List.map_congr_left fun s hs => slice?_cutOf hs

/-- A backslash and the first byte of a character behind it are passed at once, and so is the end
of the text behind a backslash. -/
example : scan (encode "a'\\é".toList) 0 = some [⟨.identifier, 0, 1⟩, ⟨.literal, 1, 5⟩] ∧
    scan (encode "'\\".toList) 0 = some [⟨.literal, 0, 2⟩] := by decide +kernel

end ByteScan
end OpenGrammar

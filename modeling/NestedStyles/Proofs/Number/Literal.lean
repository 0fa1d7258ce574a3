import Mathlib.Algebra.Order.Field.Rat
import Mathlib.Tactic.FieldSimp
import Mathlib.Tactic.Ring
import NestedStyles.Number.Numeral
import NestedStyles.Proofs.Token.Lexed

/-!
# Decimal literals

A literal has a sign or none, digits with a point before, among or after them or without one, and maybe an exponent
with its sign. The places of its digits say which rational number it denotes, and reading it gives exactly this number.

- `Numeral.Literal`: the parts of a literal, and `Numeral.Literal.text`, what they are written as.
- `Numeral.Literal.rational`: the number that it denotes.
- `Numeral.Literal.read?_text`: a literal is read as its digits, scaled by the places behind the point.
- `Numeral.Literal.rational?_read?`: this is the number that it denotes.
- `Numeral.unsigned?_two_points`: text with two points is no numeral.
-/

namespace NestedStyles.Numeral

/-! ## The parts of a literal -/

/-- What may stand before the digits. -/
inductive Sign where
  | absent
  | plus
  | minus
deriving DecidableEq, Repr

namespace Sign

def text : Sign → List Char
  | absent => []
  | plus => ['+']
  | minus => ['-']

def negative : Sign → Bool
  | minus => true
  | _ => false

/-- The sign that is written: a plus is left out. -/
def ofNegative : Bool → Sign
  | true => minus
  | false => absent

@[simp]
theorem negative_ofNegative (b : Bool) : (ofNegative b).negative = b := by cases b <;> rfl

end Sign

/-- The digits before the point, those behind it if there is a point, and the sign and the digits of the exponent.
In an exponent `true` is for minus. -/
structure Literal where
  sign : Sign
  whole : List Char
  fraction : Option (List Char) := none
  exponent : Option (Bool × List Char) := none
  isDigit_whole : ∀ c ∈ whole, c.isDigit = true
  isDigit_fraction : ∀ c ∈ fraction.getD [], c.isDigit = true := by simp
  isDigit_exponent : ∀ e ∈ exponent, e.2 ≠ [] ∧ ∀ c ∈ e.2, c.isDigit = true := by simp
  ne_nil : whole ++ fraction.getD [] ≠ []

/-- A magnitude with its sign. -/
def signed (negative : Bool) (magnitude : ℚ) : ℚ := if negative then -magnitude else magnitude

/-- The number that a numeral stands for, if it is finite. -/
def rational? : Numeral → Option ℚ
  | decimal negative digits exponent => some (signed negative (digits * 10 ^ exponent))
  | _ => none

namespace Literal

variable (l : Literal)

/-- The digits behind the point. -/
def places : List Char := l.fraction.getD []

/-- The power of ten that the exponent stands for. -/
def power : Int :=
  match l.exponent with
  | none => 0
  | some (negative, digits) => if negative then -(value digits : Int) else value digits

/-! ### What is written -/

def pointText : List Char :=
  match l.fraction with
  | none => []
  | some digits => '.' :: digits

def powerText : List Char :=
  match l.exponent with
  | none => []
  | some (negative, digits) => 'e' :: (if negative then '-' else '+') :: digits

/-- The literal without its sign. -/
def body : List Char := l.whole ++ (l.pointText ++ l.powerText)

def text : List Char := l.sign.text ++ l.body

/-- The number that a literal denotes: a digit behind the point counts a tenth of one at its left. -/
def rational : ℚ :=
  signed l.sign.negative ((value l.whole + value l.places / 10 ^ l.places.length) * 10 ^ l.power)

end Literal

/-! ## The value of digits -/

theorem value_singleton (c : Char) : value [c] = c.toNat - '0'.toNat := by
  rw [value, Nat.ofDigitChars_cons, Nat.ofDigitChars_nil, Nat.mul_zero, Nat.zero_add]

/-- Digits behind others count for less by as many powers of ten. -/
theorem value_append (as bs : List Char) : value (as ++ bs) = 10 ^ bs.length * value as + value bs := by
  rw [value, Nat.ofDigitChars_append, Nat.ofDigitChars_eq_ofDigitChars_zero]
  rfl

theorem value_zeros_append (n : Nat) (ds : List Char) : value (List.replicate n '0' ++ ds) = value ds := by
  rw [value_append, value, Nat.ofDigitChars_replicate_zero, Nat.mul_zero, Nat.mul_zero, Nat.zero_add]

theorem value_append_zeros (ds : List Char) (n : Nat) : value (ds ++ List.replicate n '0') = value ds * 10 ^ n := by
  rw [value_append, List.length_replicate, value, value, Nat.ofDigitChars_replicate_zero, Nat.mul_zero, Nat.add_zero,
    Nat.mul_comm]

theorem Literal.rational_eq (l : Literal) :
    l.rational = signed l.sign.negative (value (l.whole ++ l.places) * 10 ^ (l.power - l.places.length)) := by
  have hten : (10 : ℚ) ≠ 0 := by norm_num
  rw [Literal.rational, value_append, zpow_sub₀ hten, zpow_natCast]
  congr 1
  push_cast
  field_simp

/-! ## Characters of literals -/

/-- The characters that literals are written with. -/
def IsLiteralChar (c : Char) : Prop := c.isDigit = true ∨ c = '.' ∨ c = 'e' ∨ c = '+' ∨ c = '-'

section Characters

variable {c : Char} {cs : List Char}

theorem isLiteralChar_of_mem_sign {sign : Sign} (h : c ∈ sign.text) : IsLiteralChar c := by
  cases sign with
  | absent => cases h
  | plus => exact .inr (.inr (.inr (.inl (List.mem_singleton.1 h))))
  | minus => exact .inr (.inr (.inr (.inr (List.mem_singleton.1 h))))

theorem isLiteralChar_of_isNumberChar (h : Lexeme.isNumberChar c = true) : IsLiteralChar c := by
  rw [Lexeme.isNumberChar, Bool.or_eq_true, beq_iff_eq] at h
  exact h.imp_right .inl

theorem plainDigit_of_isDigit (h : c.isDigit = true) : plainDigit c = c := by
  have hrange := Char.isDigit_iff_toNat.1 h
  have h0 : '0'.toNat = 48 := rfl
  have h9 : '9'.toNat = 57 := rfl
  have hdigit := Nat.toNat_digitChar_of_lt_ten (n := c.toNat - 48) (by omega)
  rw [plainDigit, Text.digitValue?_ascii c h]
  exact Char.toNat_inj.1 (hdigit.trans (by omega))

theorem IsLiteralChar.plainDigit_eq (h : IsLiteralChar c) : plainDigit c = c := by
  rcases h with h | rfl | rfl | rfl | rfl
  · exact plainDigit_of_isDigit h
  all_goals decide +kernel

theorem IsLiteralChar.isMargin_eq (h : IsLiteralChar c) : isMargin c = false := by
  rcases h with h | rfl | rfl | rfl | rfl
  · rw [isMargin, Text.isBlank_of_isDigit h, Bool.false_and]
  all_goals decide

theorem IsLiteralChar.ne_underscore (h : IsLiteralChar c) : c ≠ '_' := by
  rintro rfl
  rcases h with h | h | h | h | h <;> exact absurd h (by decide)

/-- Without underscores there is nothing to take out. -/
theorem ungroup?_eq_some (h : ∀ c ∈ cs, c ≠ '_') (afterDigit : Bool) : ungroup? afterDigit cs = some cs := by
  induction cs generalizing afterDigit with
  | nil => rfl
  | cons c cs ih =>
    rw [ungroup?, if_neg (h c List.mem_cons_self), ih fun d hd => h d (List.mem_cons_of_mem c hd)]
    rfl

/-- Nothing is taken off or changed before a literal is read. -/
theorem characters?_eq_some (h : ∀ c ∈ cs, IsLiteralChar c) : characters? (String.ofList cs) = some cs := by
  have hstrip : Text.stripEnds isMargin cs = cs :=
    Text.stripEnds_eq_self (fun c hc => (h c (List.mem_of_head? hc)).isMargin_eq)
      fun c hc => (h c (List.mem_of_getLast? hc)).isMargin_eq
  have hplain : cs.map plainDigit = cs := (List.map_congr_left fun c hc => (h c hc).plainDigit_eq).trans (List.map_id' cs)
  rw [characters?, String.toList_ofList, hstrip, hplain, ungroup?_eq_some fun c hc => (h c hc).ne_underscore]

theorem takeSign_append (sign : Sign) (hc : Lexeme.isNumberChar c = true) :
    takeSign (sign.text ++ c :: cs) = (sign.negative, c :: cs) := by
  cases sign with
  | plus | minus => rfl
  | absent =>
    show takeSign (c :: cs) = (false, c :: cs)
    unfold takeSign
    split
    · next h => cases h; exact absurd hc (by decide)
    · next h => cases h; exact absurd hc (by decide)
    · rfl

theorem toLower_of_isNumberChar (hc : Lexeme.isNumberChar c = true) : c.toLower = c := by
  have hlt : c.toNat < 128 := by
    rw [Lexeme.isNumberChar, Bool.or_eq_true, beq_iff_eq] at hc
    rcases hc with hdigit | rfl
    · have hrange := Char.isDigit_iff_toNat.1 hdigit
      have h9 : '9'.toNat = 57 := rfl
      omega
    · decide
  have hall : ∀ n < 128, Lexeme.isNumberChar (Char.ofNat n) = true → (Char.ofNat n).toLower = Char.ofNat n := by
    decide +kernel
  have hc' := hall c.toNat hlt
  rw [Char.ofNat_toNat] at hc'
  exact hc' hc

/-- Text that begins with a digit or a point is no word that begins with a letter. -/
theorem ofList_map_toLower_ne {w : Char} {word : String} (hc : Lexeme.isNumberChar c = true)
    (hhead : word.toList.head? = some w) (hw : Lexeme.isNumberChar w = false) :
    String.ofList ((c :: cs).map Char.toLower) ≠ word := by
  intro heq
  rw [← heq, String.toList_ofList, List.map_cons, List.head?_cons, toLower_of_isNumberChar hc] at hhead
  rw [← Option.some.inj hhead, hc] at hw
  cases hw

/-- With a sign or without, text that begins with a digit or a point is read by its digits. -/
theorem read?_eq_unsigned? (sign : Sign) (hc : Lexeme.isNumberChar c = true)
    (h : ∀ x ∈ sign.text ++ c :: cs, IsLiteralChar x) :
    read? (String.ofList (sign.text ++ c :: cs)) = unsigned? sign.negative (c :: cs) := by
  have hinf : String.ofList ((c :: cs).map Char.toLower) ≠ "inf" :=
    ofList_map_toLower_ne (w := 'i') hc (by decide +kernel) (by decide)
  have hinfinity : String.ofList ((c :: cs).map Char.toLower) ≠ "infinity" :=
    ofList_map_toLower_ne (w := 'i') hc (by decide +kernel) (by decide)
  have hnan : String.ofList ((c :: cs).map Char.toLower) ≠ "nan" :=
    ofList_map_toLower_ne (w := 'n') hc (by decide +kernel) (by decide)
  simp only [read?, characters?_eq_some h, Option.bind_eq_bind, Option.bind_some, takeSign_append sign hc]
  rw [if_neg (not_or.2 ⟨hinf, hinfinity⟩), if_neg hnan]

end Characters

/-! ## Reading a literal -/

section Reading

variable {whole fraction tail : List Char}

theorem takeWhile_isDigit_append (hwhole : ∀ c ∈ whole, c.isDigit = true) (htail : ∀ c ∈ tail.head?, c.isDigit = false) :
    (whole ++ tail).takeWhile Char.isDigit = whole ∧ (whole ++ tail).dropWhile Char.isDigit = tail := by
  rw [List.takeWhile_append_of_pos hwhole, List.dropWhile_append_of_pos hwhole]
  cases tail with
  | nil => simp
  | cons c cs => simp [htail c rfl]

theorem unsigned?_whole (negative : Bool) (hwhole : ∀ c ∈ whole, c.isDigit = true)
    (htail : ∀ c ∈ tail.head?, c.isDigit = false ∧ c ≠ '.') (hne : whole ≠ []) :
    unsigned? negative (whole ++ tail) = (exponent? tail).map fun e => decimal negative (value whole) e := by
  obtain ⟨htake, hdrop⟩ := takeWhile_isDigit_append hwhole fun c hc => (htail c hc).1
  have hpoint : tail.head? ≠ some '.' := fun h => (htail '.' h).2 rfl
  simp [unsigned?, htake, hdrop, hpoint, hne]

theorem unsigned?_point (negative : Bool) (hwhole : ∀ c ∈ whole, c.isDigit = true)
    (hfraction : ∀ c ∈ fraction, c.isDigit = true) (htail : ∀ c ∈ tail.head?, c.isDigit = false) :
    unsigned? negative (whole ++ '.' :: (fraction ++ tail)) =
      if whole ++ fraction = [] then none
      else (exponent? tail).map fun e => decimal negative (value (whole ++ fraction)) (e - fraction.length) := by
  have hpoint : ∀ c ∈ ('.' :: (fraction ++ tail)).head?, c.isDigit = false := by
    rintro c ⟨⟩
    decide
  obtain ⟨htake, hdrop⟩ := takeWhile_isDigit_append hwhole hpoint
  obtain ⟨htake', hdrop'⟩ := takeWhile_isDigit_append hfraction htail
  simp only [unsigned?, htake, hdrop, List.head?_cons, if_true, List.tail_cons, htake', hdrop']

/-- Text with two points is no numeral. -/
theorem unsigned?_two_points (negative : Bool) (hwhole : ∀ c ∈ whole, c.isDigit = true)
    (hfraction : ∀ c ∈ fraction, c.isDigit = true) :
    unsigned? negative (whole ++ '.' :: (fraction ++ '.' :: tail)) = none := by
  have htail : ∀ c ∈ ('.' :: tail).head?, c.isDigit = false := by
    rintro c ⟨⟩
    decide
  have hexponent : exponent? ('.' :: tail) = none := by
    simp [exponent?]
  rw [unsigned?_point negative hwhole hfraction htail, hexponent]
  simp

namespace Literal

variable (l : Literal)

/-- The exponent of a literal is read back. -/
theorem exponent?_powerText : exponent? l.powerText = some l.power := by
  cases hexponent : l.exponent with
  | none => simp [powerText, power, hexponent, exponent?]
  | some e =>
    obtain ⟨hne, hdigits⟩ := l.isDigit_exponent e hexponent
    have hall : e.2.all Char.isDigit = true := List.all_eq_true.2 hdigits
    cases hnegative : e.1 with
    | true => simp [powerText, power, hexponent, hnegative, exponent?, takeSign, hne, hall]
    | false => simp [powerText, power, hexponent, hnegative, exponent?, takeSign, hne, hall]

theorem powerText_head : ∀ c ∈ l.powerText.head?, c.isDigit = false ∧ c ≠ '.' := by
  cases hexponent : l.exponent with
  | none => simp [powerText, hexponent]
  | some e => simp [powerText, hexponent]

theorem unsigned?_body (negative : Bool) :
    unsigned? negative l.body = some (decimal negative (value (l.whole ++ l.places)) (l.power - l.places.length)) := by
  have hne := l.ne_nil
  have hplaces := l.isDigit_fraction
  cases hfraction : l.fraction with
  | none =>
    rw [hfraction, Option.getD_none, List.append_nil] at hne
    simp only [body, pointText, hfraction, List.nil_append]
    rw [unsigned?_whole negative l.isDigit_whole l.powerText_head hne, exponent?_powerText]
    simp [places, hfraction]
  | some digits =>
    rw [hfraction, Option.getD_some] at hne hplaces
    simp only [body, pointText, hfraction, List.cons_append]
    rw [unsigned?_point negative l.isDigit_whole hplaces fun c hc => (l.powerText_head c hc).1, if_neg hne,
      exponent?_powerText]
    simp [places, hfraction]

theorem isLiteralChar_of_mem_pointText {c : Char} (h : c ∈ l.pointText) : IsLiteralChar c := by
  have hplaces := l.isDigit_fraction
  cases hfraction : l.fraction with
  | none => simp [pointText, hfraction] at h
  | some digits =>
    simp only [pointText, hfraction, List.mem_cons] at h
    rw [hfraction, Option.getD_some] at hplaces
    rcases h with rfl | h
    · exact .inr (.inl rfl)
    · exact .inl (hplaces c h)

theorem isLiteralChar_of_mem_powerText {c : Char} (h : c ∈ l.powerText) : IsLiteralChar c := by
  cases hexponent : l.exponent with
  | none => simp [powerText, hexponent] at h
  | some e =>
    obtain ⟨-, hdigits⟩ := l.isDigit_exponent e hexponent
    simp only [powerText, hexponent, List.mem_cons] at h
    rcases h with rfl | rfl | h
    · exact .inr (.inr (.inl rfl))
    · cases e.1 with
      | true => exact .inr (.inr (.inr (.inr rfl)))
      | false => exact .inr (.inr (.inr (.inl rfl)))
    · exact .inl (hdigits c h)

/-- A literal is written with these characters alone. -/
theorem isLiteralChar_of_mem_text {c : Char} (h : c ∈ l.text) : IsLiteralChar c := by
  simp only [text, body, List.mem_append] at h
  rcases h with h | h | h | h
  · exact isLiteralChar_of_mem_sign h
  · exact .inl (l.isDigit_whole c h)
  · exact l.isLiteralChar_of_mem_pointText h
  · exact l.isLiteralChar_of_mem_powerText h

theorem exists_body_eq_cons : ∃ c cs, l.body = c :: cs ∧ Lexeme.isNumberChar c = true := by
  cases hwhole : l.whole with
  | cons c cs =>
    have hc := l.isDigit_whole c (hwhole ▸ List.mem_cons_self)
    exact ⟨c, cs ++ (l.pointText ++ l.powerText), by rw [body, hwhole]; rfl, by rw [Lexeme.isNumberChar, hc]; rfl⟩
  | nil =>
    -- then there are digits behind a point
    have hne := l.ne_nil
    cases hfraction : l.fraction with
    | none => simp [hwhole, hfraction] at hne
    | some digits => exact ⟨'.', digits ++ l.powerText, by simp [body, hwhole, pointText, hfraction], by decide⟩

/-- **Reading a literal gives its digits**, scaled by the places behind the point and by the exponent. -/
theorem read?_text :
    read? (String.ofList l.text) =
      some (decimal l.sign.negative (value (l.whole ++ l.places)) (l.power - l.places.length)) := by
  obtain ⟨c, cs, hbody, hc⟩ := l.exists_body_eq_cons
  have htext : l.text = l.sign.text ++ c :: cs := by rw [text, hbody]
  rw [htext, read?_eq_unsigned? l.sign hc fun x hx => l.isLiteralChar_of_mem_text (htext ▸ hx), ← hbody]
  exact l.unsigned?_body _

/-- Read exactly, a literal is the number that it denotes. -/
theorem rational?_read? : (read? (String.ofList l.text)).bind rational? = some l.rational := by
  rw [read?_text, rational_eq]
  rfl

end Literal

end Reading

end NestedStyles.Numeral

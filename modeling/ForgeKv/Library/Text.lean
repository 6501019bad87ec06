import Mathlib.Data.List.TakeWhile

namespace ForgeKv

-- A string of bytes, each byte a character.
abbrev Text := List Char

namespace Text

def value (digits : Text) : Nat := Nat.ofDigitChars 10 digits 0

def decimal (number : Nat) : Text := Nat.toDigits 10 number

-- A nonempty string of decimal digits.
def Decimal (text : Text) : Prop := text ≠ [] ∧ ∀ c ∈ text, c.isDigit = true

-- std::from_chars of an unsigned type with `limit` values: the number and what follows it.
def fromChars (limit : Nat) (text : Text) : Option (Nat × Text) :=
  let digits := text.takeWhile Char.isDigit
  if digits = [] ∨ limit ≤ value digits then none else some (value digits,text.dropWhile Char.isDigit)

-- What stands before the first separator, and behind it.
def cut (separator : Char) : Text → Option (Text × Text)
  | [] => none
  | c::rest => if c = separator then some ([],rest) else (cut separator rest).map (fun parts => (c::parts.1,parts.2))

-- What follows an expected beginning.
def strip : Text → Text → Option Text
  | [],text => some text
  | _::_,[] => none
  | expected::more,c::rest => if expected = c then strip more rest else none

variable {text before after rest : Text} {separator : Char} {number limit : Nat}

theorem decimal_digit (number : Nat) : ∀ c ∈ decimal number, c.isDigit = true :=
  fun _ member => Nat.isDigit_of_mem_toDigits (by decide) (by decide) member

theorem decimal_ne_nil (number : Nat) : decimal number ≠ [] := Nat.toDigits_ne_nil

theorem decimal_isDecimal (number : Nat) : Decimal (decimal number) := ⟨decimal_ne_nil number,decimal_digit number⟩

@[simp] theorem value_decimal (number : Nat) : value (decimal number) = number := Nat.ofDigitChars_ten_toDigits

theorem takeWhile_digits (digits : ∀ c ∈ before, c.isDigit = true) (stop : ∀ c ∈ rest.head?, c.isDigit = false) :
    (before ++ rest).takeWhile Char.isDigit = before ∧ (before ++ rest).dropWhile Char.isDigit = rest := by
  have none : rest.takeWhile Char.isDigit = [] ∧ rest.dropWhile Char.isDigit = rest := by
    cases rest with
    | nil => exact ⟨rfl,rfl⟩
    | cons c =>
      have other : c.isDigit = false := stop c rfl
      simp [other]
  rw [List.takeWhile_append_of_pos digits,List.dropWhile_append_of_pos digits,none.1,none.2,List.append_nil]
  exact ⟨rfl,rfl⟩

theorem fromChars_append (digits : Decimal before) (small : value before < limit) (stop : ∀ c ∈ rest.head?, c.isDigit = false) :
    fromChars limit (before ++ rest) = some (value before,rest) := by
  obtain ⟨run,remains⟩ := takeWhile_digits digits.2 stop
  rw [fromChars,run,remains,if_neg]
  exact not_or.mpr ⟨digits.1,Nat.not_le.mpr small⟩

theorem fromChars_whole : fromChars limit text = some (number,[]) ↔ Decimal text ∧ value text = number ∧ number < limit := by
  constructor
  · intro parsed
    unfold fromChars at parsed
    dsimp only at parsed
    split at parsed
    · cases parsed
    rename_i fits
    obtain ⟨some',small⟩ := not_or.mp fits
    simp only [Option.some.injEq,Prod.mk.injEq] at parsed
    obtain ⟨equal,ended⟩ := parsed
    have whole : text.takeWhile Char.isDigit = text := by
      have parts := List.takeWhile_append_dropWhile (p := Char.isDigit) (l := text)
      rwa [ended,List.append_nil] at parts
    rw [whole] at some' small equal
    refine ⟨⟨some',fun c member => ?_⟩,equal,equal ▸ Nat.not_le.mp small⟩
    rw [← whole] at member
    exact List.mem_takeWhile_imp member
  · rintro ⟨digits,rfl,small⟩
    have parsed : fromChars limit (text ++ []) = some (value text,[]) := fromChars_append digits small (by simp)
    rwa [List.append_nil] at parsed

theorem cut_eq_some : cut separator text = some (before,after) ↔ text = before ++ separator::after ∧ separator ∉ before := by
  induction text generalizing before with
  | nil => simp [cut]
  | cons c rest ih =>
    unfold cut
    by_cases same : c = separator
    · subst same
      rw [if_pos rfl]
      constructor
      · intro found
        cases found
        simp
      · rintro ⟨equal,absent⟩
        cases before with
        | nil => cases equal; rfl
        | cons =>
          cases equal
          exact absurd List.mem_cons_self absent
    · rw [if_neg same,Option.map_eq_some_iff]
      constructor
      · rintro ⟨⟨left,right⟩,found,equal⟩
        cases equal
        obtain ⟨rfl,absent⟩ := ih.mp found
        exact ⟨rfl,by simp [Ne.symm same,absent]⟩
      · rintro ⟨equal,absent⟩
        cases before with
        | nil => cases equal; exact absurd rfl same
        | cons d more =>
          cases equal
          exact ⟨(more,after),ih.mpr ⟨rfl,fun member => absent (List.mem_cons_of_mem _ member)⟩,rfl⟩

theorem cut_append (absent : separator ∉ before) : cut separator (before ++ separator::after) = some (before,after) :=
  cut_eq_some.mpr ⟨rfl,absent⟩

theorem strip_append (expected : Text) : strip expected (expected ++ rest) = some rest := by
  induction expected with
  | nil => rfl
  | cons c more ih => simp [strip,ih]

theorem take_lines (bodies : List Text) (plain : ∀ body ∈ bodies, separator ∉ body) (kept : Nat) :
    ∃ count part, ((bodies.map (· ++ [separator])).flatten).take kept =
      ((bodies.take count).map (· ++ [separator])).flatten ++ part ∧ separator ∉ part := by
  induction bodies generalizing kept with
  | nil => exact ⟨0,[],by simp,by simp⟩
  | cons body more ih =>
    obtain ⟨here,later⟩ := List.forall_mem_cons.mp plain
    rw [List.map_cons,List.flatten_cons]
    by_cases inside : kept ≤ body.length
    · refine ⟨0,body.take kept,?_,fun member => here (List.mem_of_mem_take member)⟩
      rw [List.append_assoc,List.take_append_of_le_length inside]
      rfl
    · obtain ⟨count,part,equal,ends⟩ := ih later (kept-(body ++ [separator]).length)
      refine ⟨count+1,part,?_,ends⟩
      rw [List.take_append,List.take_of_length_le (by simp; omega),equal]
      simp

end Text
end ForgeKv

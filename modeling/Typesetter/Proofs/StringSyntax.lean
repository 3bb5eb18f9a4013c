import Typesetter.Pdf

/-! # Reading strings

The syntax of strings: in parentheses, where inner parentheses nest and a backslash starts an
escape, or as hexadecimal digits. What is written as a string reads back, whatever follows it. -/
namespace Typesetter.Pdf

theorem toNat_toUInt8 {n : Nat} (h : n < 256) : n.toUInt8.toNat = n := by
  simp only [Nat.toUInt8_eq, UInt8.toNat_ofNat']
  omega

theorem chars_ascii {text : String} (h : ∀ c ∈ text.toList, c.toNat < 256) :
    (ascii text).map (fun b => Char.ofNat b.toNat) = text.toList := by
  rw [ascii, List.map_map]
  refine (List.map_congr_left (g := id) fun c hc => ?_).trans (List.map_id _)
  rw [Function.comp_apply, toNat_toUInt8 (h c hc), Char.ofNat_toNat, id]

/-! ## Syntax -/

def isSpace (b : UInt8) : Bool := [0, 9, 10, 12, 13, 32].contains b

def isOctal (b : UInt8) : Bool := 48 ≤ b && b ≤ 55

def octalValue (digits : Bytes) : UInt8 := digits.foldl (fun n digit => n * 8 + (digit - 48)) 0

/-- What an escape stands for, and how many bytes behind the backslash belong to it. -/
def escape : Bytes → Bytes × Nat
  | [] => ([], 0)
  | b :: rest =>
    if isOctal b then
      let digits := b :: (rest.take 2).takeWhile isOctal
      ([octalValue digits], digits.length)
    else if b = 110 then ([10], 1)
    else if b = 114 then ([13], 1)
    else if b = 116 then ([9], 1)
    else if b = 98 then ([8], 1)
    else if b = 102 then ([12], 1)
    -- An escaped end of line stands for nothing, and of any other byte only the backslash is lost.
    else if b = 13 ∧ rest.head? = some 10 then ([], 2)
    else if b = 10 ∨ b = 13 then ([], 1)
    else ([b], 1)

def prepend (bytes : Bytes) (later : Bytes × Bytes) : Bytes × Bytes := (bytes ++ later.1, later.2)

/-- Reads up to the parenthesis that closes the string, at some nesting depth inside it and with
some bytes still to be passed over. -/
def literal? : Nat → Nat → Bytes → Option (Bytes × Bytes)
  | _, _, [] => none
  | depth, skip + 1, _ :: rest => literal? depth skip rest
  | depth, 0, b :: rest =>
    if b = backslash then
      let (meant, used) := escape rest
      (literal? depth used rest).map (prepend meant)
    else if b = closeParen then
      match depth with
      | 0 => some ([], rest)
      | depth + 1 => (literal? depth 0 rest).map (prepend [b])
    else if b = openParen then (literal? (depth + 1) 0 rest).map (prepend [b])
    -- Every end of line counts as a newline.
    else if b = 13 then
      (literal? depth (if rest.head? = some 10 then 1 else 0) rest).map (prepend [10])
    else (literal? depth 0 rest).map (prepend [b])

def hexValue? (b : UInt8) : Option UInt8 :=
  if 48 ≤ b ∧ b ≤ 57 then some (b - 48)
  else if 65 ≤ b ∧ b ≤ 70 then some (b - 55)
  else if 97 ≤ b ∧ b ≤ 102 then some (b - 87)
  else none

/-- Reads pairs of digits up to the closing bracket, given the first digit of a pair. A digit left
alone is followed by a zero. -/
def hexadecimal? : Option UInt8 → Bytes → Option (Bytes × Bytes)
  | _, [] => none
  | high, b :: rest =>
    if b = 62 then some ((high.map (· * 16)).toList, rest)
    else if isSpace b then hexadecimal? high rest
    else
      match hexValue? b with
      | none => none
      | some value =>
        match high with
        | none => hexadecimal? (some value) rest
        | some high => (hexadecimal? none rest).map (prepend [high * 16 + value])

def string? : Bytes → Option (Bytes × Bytes)
  | [] => none
  | b :: rest =>
    if b = openParen then literal? 0 0 rest
    else if b = 60 then hexadecimal? none rest
    else none

@[simp] theorem map_prepend_nil (read : Option (Bytes × Bytes)) :
    read.map (prepend []) = read := by
  cases read <;> rfl

theorem map_prepend_map_prepend (a b : Bytes) (read : Option (Bytes × Bytes)) :
    (read.map (prepend b)).map (prepend a) = read.map (prepend (a ++ b)) := by
  cases read <;> simp [prepend]

/-! ## Escapes -/

theorem isOctal_digit {n : UInt8} (h : n.toNat < 8) : isOctal (48 + n) = true := by
  unfold isOctal
  simp only [Bool.and_eq_true, decide_eq_true_eq, UInt8.le_iff_toNat_le, UInt8.toNat_add,
    UInt8.reduceToNat]
  omega

theorem octalValue_octal (b : UInt8) : octalValue (octal b) = b := by
  have hdigit : ∀ n : UInt8, 48 + n - 48 = n := by
    intro n
    rw [UInt8.add_comm, UInt8.add_sub_cancel]
  simp only [octalValue, octal, List.foldl_cons, List.foldl_nil, hdigit]
  apply UInt8.toNat_inj.mp
  have hb := b.toNat_lt
  simp only [UInt8.toNat_add, UInt8.toNat_mul, UInt8.toNat_div, UInt8.toNat_mod,
    UInt8.reduceToNat]
  omega

theorem escape_octal (b : UInt8) (rest : Bytes) : escape (octal b ++ rest) = ([b], 3) := by
  have hb := b.toNat_lt
  have hhigh : isOctal (48 + b / 64) = true := by
    apply isOctal_digit
    simp only [UInt8.toNat_div, UInt8.reduceToNat]
    omega
  have hmiddle : isOctal (48 + b / 8 % 8) = true := by
    apply isOctal_digit
    simp only [UInt8.toNat_div, UInt8.toNat_mod, UInt8.reduceToNat]
    omega
  have hlow : isOctal (48 + b % 8) = true := by
    apply isOctal_digit
    simp only [UInt8.toNat_mod, UInt8.reduceToNat]
    omega
  have hvalue := octalValue_octal b
  simp only [octal] at hvalue
  simp [octal, escape, hhigh, hmiddle, hlow, hvalue]

theorem literal?_cons (depth : Nat) (b : UInt8) (rest : Bytes) :
    literal? depth 0 (b :: rest) =
      if b = backslash then (literal? depth (escape rest).2 rest).map (prepend (escape rest).1)
      else if b = closeParen then
        match depth with
        | 0 => some ([], rest)
        | depth + 1 => (literal? depth 0 rest).map (prepend [b])
      else if b = openParen then (literal? (depth + 1) 0 rest).map (prepend [b])
      else if b = 13 then
        (literal? depth (if rest.head? = some 10 then 1 else 0) rest).map (prepend [10])
      else (literal? depth 0 rest).map (prepend [b]) := by
  cases depth <;> rfl

theorem literal?_skip (depth : Nat) (passed rest : Bytes) :
    literal? depth passed.length (passed ++ rest) = literal? depth 0 rest := by
  induction passed with
  | nil => rfl
  | cons b passed ih =>
    rw [← ih]
    cases depth <;> rfl

theorem literal?_escape {e meant rest : Bytes} (h : escape (e ++ rest) = (meant, e.length))
    (depth : Nat) :
    literal? depth 0 (backslash :: e ++ rest) = (literal? depth 0 rest).map (prepend meant) := by
  rw [List.cons_append, literal?_cons, if_pos rfl, h, literal?_skip]

theorem literal?_escapeByte {bare : Bool} {b : UInt8}
    (h : b = openParen ∨ b = closeParen → bare = false) (depth : Nat) (rest : Bytes) :
    literal? depth 0 (escapeByte bare b ++ rest) = (literal? depth 0 rest).map (prepend [b]) := by
  have hescape := fun (e meant : Bytes) (he : escape (e ++ rest) = (meant, e.length)) =>
    literal?_escape he depth
  -- The cases of `escapeByte`, in its order.
  by_cases hbackslash : b = backslash
  · rw [hbackslash]
    exact hescape [backslash] [backslash] rfl
  by_cases hparen : b = openParen ∨ b = closeParen
  · rw [h hparen]
    rcases hparen with hb | hb
    · rw [hb]
      exact hescape [openParen] [openParen] rfl
    · rw [hb]
      exact hescape [closeParen] [closeParen] rfl
  by_cases hplain : 0x20 ≤ b ∧ b ≤ 0x7E
  · obtain ⟨hopen, hclose⟩ := not_or.mp hparen
    have hreturn : b ≠ 13 := by
      rintro rfl
      exact absurd hplain (by decide)
    have hbyte : escapeByte bare b = [b] := by
      rw [escapeByte, if_neg hbackslash, if_neg hparen, if_pos hplain]
    rw [hbyte, List.singleton_append, literal?_cons, if_neg hbackslash, if_neg hclose,
      if_neg hopen, if_neg hreturn]
  by_cases hb : b = 10
  · rw [hb]
    exact hescape [110] [10] rfl
  by_cases hb : b = 13
  · rw [hb]
    exact hescape [114] [13] rfl
  by_cases hb : b = 9
  · rw [hb]
    exact hescape [116] [9] rfl
  by_cases hb : b = 8
  · rw [hb]
    exact hescape [98] [8] rfl
  by_cases hb : b = 12
  · rw [hb]
    exact hescape [102] [12] rfl
  have hbyte : escapeByte bare b = backslash :: octal b := by
    simp only [escapeByte, *, if_false]
  rw [hbyte]
  exact hescape (octal b) [b] (escape_octal b rest)

/-! ## Parentheses -/

theorem literal?_escaped (bytes : Bytes) (depth : Nat) (rest : Bytes) :
    literal? depth 0 (bytes.flatMap (escapeByte false) ++ rest) =
      (literal? depth 0 rest).map (prepend bytes) := by
  induction bytes with
  | nil => simp
  | cons b bytes ih =>
    rw [List.flatMap_cons, List.append_assoc, literal?_escapeByte (fun _ => rfl), ih,
      map_prepend_map_prepend, List.singleton_append]

theorem foldl_nest_none (bytes : Bytes) : bytes.foldl nest none = none := by
  induction bytes with
  | nil => rfl
  | cons b bytes ih => exact ih

theorem literal?_bare {bytes : Bytes} {depth deeper : Nat}
    (h : bytes.foldl nest (some depth) = some deeper) (rest : Bytes) :
    literal? depth 0 (bytes.flatMap (escapeByte true) ++ rest) =
      (literal? deeper 0 rest).map (prepend bytes) := by
  induction bytes generalizing depth with
  | nil =>
    obtain rfl : depth = deeper := by simpa using h
    simp
  | cons b bytes ih =>
    rw [List.foldl_cons] at h
    rw [List.flatMap_cons, List.append_assoc, ← List.singleton_append, ← map_prepend_map_prepend]
    by_cases hopen : b = openParen
    · subst hopen
      have hinside : bytes.foldl nest (some (depth + 1)) = some deeper := h
      rw [← ih hinside]
      exact literal?_cons depth openParen _
    by_cases hclose : b = closeParen
    · subst hclose
      cases depth with
      | zero =>
        rw [show nest (some 0) closeParen = none from rfl, foldl_nest_none] at h
        exact absurd h (by simp)
      | succ depth =>
        have hbehind : bytes.foldl nest (some depth) = some deeper := h
        rw [← ih hbehind]
        exact literal?_cons (depth + 1) closeParen _
    · have hnest : nest (some depth) b = some depth := by
        rw [nest, if_neg hopen, if_neg hclose]
      rw [hnest] at h
      rw [literal?_escapeByte (fun hparen => absurd hparen (by simp [hopen, hclose])), ih h]

theorem string?_literalString (bytes rest : Bytes) :
    string? (literalString bytes ++ rest) = some (bytes, rest) := by
  have hread : literal? 0 0 (bytes.flatMap (escapeByte (isBalanced bytes)) ++ closeParen :: rest) =
      (literal? 0 0 (closeParen :: rest)).map (prepend bytes) := by
    cases hbare : isBalanced bytes with
    | false => exact literal?_escaped bytes 0 _
    | true => exact literal?_bare (by simpa [isBalanced] using hbare) _
  have hend : literal? 0 0 (closeParen :: rest) = some ([], rest) := rfl
  rw [literalString, List.append_assoc, List.append_assoc, List.singleton_append,
    List.singleton_append, string?, if_pos rfl, hread, hend]
  simp [prepend]

/-! ## Hexadecimal digits -/

def hexDigit (n : Nat) : UInt8 :=
  (Char.ofNat (if n < 10 then '0'.toNat + n else 'A'.toNat + (n - 10))).toNat.toUInt8

theorem hexDigits_bytes (b : UInt8) :
    (hexDigits true b).map (fun c => c.toNat.toUInt8) =
      [hexDigit (b.toNat / 16), hexDigit (b.toNat % 16)] := rfl

theorem hexValue?_hexDigit : ∀ n < 16, hexDigit n ≠ 62 ∧ isSpace (hexDigit n) = false ∧
    hexValue? (hexDigit n) = some n.toUInt8 := by
  decide

theorem hexadecimal?_hex (bytes rest : Bytes) :
    hexadecimal? none (hex bytes ++ 62 :: rest) = some (bytes, rest) := by
  induction bytes with
  | nil => rfl
  | cons b bytes ih =>
    have hb := b.toNat_lt
    obtain ⟨hend, hspace, hvalue⟩ := hexValue?_hexDigit (b.toNat / 16) (by omega)
    obtain ⟨hend', hspace', hvalue'⟩ := hexValue?_hexDigit (b.toNat % 16) (by omega)
    have hbyte : (b.toNat / 16).toUInt8 * 16 + (b.toNat % 16).toUInt8 = b := by
      apply UInt8.toNat_inj.mp
      simp only [UInt8.toNat_add, UInt8.toNat_mul, Nat.toUInt8_eq, UInt8.toNat_ofNat',
        UInt8.reduceToNat]
      omega
    rw [hex] at ih
    rw [hex, List.flatMap_cons, hexDigits_bytes]
    simp [hexadecimal?, hend, hspace, hvalue, hend', hspace', hvalue', hbyte, ih, prepend]

theorem string?_hexString (bytes rest : Bytes) :
    string? (hexString bytes ++ rest) = some (bytes, rest) := by
  have hbracket : (60 : UInt8) ≠ openParen := by decide
  have hread := hexadecimal?_hex bytes rest
  simpa [hexString, string?, ascii, hbracket] using hread

/-- A string ends where it was written to end and gives back its bytes, whatever they are and
whatever follows. -/
theorem string?_byteString (bytes rest : Bytes) :
    string? (byteString bytes ++ rest) = some (bytes, rest) := by
  unfold byteString
  split
  · exact string?_literalString bytes rest
  · exact string?_hexString bytes rest

end Typesetter.Pdf

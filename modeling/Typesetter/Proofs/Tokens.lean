import Typesetter.Proofs.StringSyntax

/-! # Tokens

The contents of pages and the objects of a file are read token by token, with white space between
them. A text is known by the tokens read from it, in front of anything that does not go on with its
last word. -/
namespace Typesetter.Pdf

inductive Token where
  | beginArray
  | endArray
  | beginDictionary
  | endDictionary
  | name (text : Bytes)
  | string (bytes : Bytes)
  /-- A number or a keyword. -/
  | word (text : Bytes)
  deriving DecidableEq

def keyword (text : String) : Token := .word (ascii text)

def isDelimiter (b : UInt8) : Bool := [37, 40, 41, 47, 60, 62, 91, 93, 123, 125].contains b

def isRegular (b : UInt8) : Bool := !isSpace b && !isDelimiter b

def token? : Bytes → Option (Token × Bytes)
  | [] => none
  | b :: rest =>
    if isSpace b then token? rest
    else if isRegular b then
      some (.word (b :: rest.takeWhile isRegular), rest.dropWhile isRegular)
    else if b = 47 then some (.name (rest.takeWhile isRegular), rest.dropWhile isRegular)
    else if b = 91 then some (.beginArray, rest)
    else if b = 93 then some (.endArray, rest)
    else if b = 60 ∧ rest.head? = some 60 then some (.beginDictionary, rest.tail)
    else if b = 62 ∧ rest.head? = some 62 then some (.endDictionary, rest.tail)
    else (string? (b :: rest)).map fun (bytes, rest) => (.string bytes, rest)

def firstTokens? : Nat → Bytes → Option (List Token × Bytes)
  | 0, bytes => some ([], bytes)
  | n + 1, bytes =>
    match token? bytes with
    | none => none
    | some (t, rest) => (firstTokens? n rest).map fun (ts, rest) => (t :: ts, rest)

/-- These are the tokens of a text up to some rest of it. -/
def Lexed (bytes : Bytes) (ts : List Token) (rest : Bytes) : Prop :=
  firstTokens? ts.length bytes = some (ts, rest)

/-! ## Reading to the end -/

theorem length_of_literal? {depth skip : Nat} {bytes read rest : Bytes}
    (h : literal? depth skip bytes = some (read, rest)) : rest.length < bytes.length := by
  induction bytes generalizing depth skip read with
  | nil => simp [literal?] at h
  | cons b bytes ih =>
    have hmap : ∀ (depth skip : Nat) (front : Bytes),
        (literal? depth skip bytes).map (prepend front) = some (read, rest) →
          rest.length < (b :: bytes).length := by
      intro depth skip front hread
      obtain ⟨⟨later, rest'⟩, hlater, hsplit⟩ := Option.map_eq_some_iff.mp hread
      obtain ⟨-, rfl⟩ := Prod.mk.inj hsplit
      exact Nat.lt_succ_of_lt (ih hlater)
    cases skip with
    | succ skip =>
      have hskip : literal? depth skip bytes = some (read, rest) := by cases depth <;> exact h
      exact Nat.lt_succ_of_lt (ih hskip)
    | zero =>
      rw [literal?_cons] at h
      split at h
      · exact hmap _ _ _ h
      · split at h
        · cases depth with
          | zero =>
            obtain ⟨-, rfl⟩ := Prod.mk.inj (Option.some.inj h)
            exact Nat.lt_succ_self _
          | succ depth => exact hmap _ _ _ h
        · split at h
          · exact hmap _ _ _ h
          · split at h
            · exact hmap _ _ _ h
            · exact hmap _ _ _ h

theorem length_of_hexadecimal? {high : Option UInt8} {bytes read rest : Bytes}
    (h : hexadecimal? high bytes = some (read, rest)) : rest.length < bytes.length := by
  induction bytes generalizing high read with
  | nil => simp [hexadecimal?] at h
  | cons b bytes ih =>
    rw [hexadecimal?.eq_def] at h
    dsimp only at h
    split at h
    · obtain ⟨-, rfl⟩ := Prod.mk.inj (Option.some.inj h)
      exact Nat.lt_succ_self _
    · split at h
      · exact Nat.lt_succ_of_lt (ih h)
      · split at h
        · simp at h
        · split at h
          · exact Nat.lt_succ_of_lt (ih h)
          obtain ⟨⟨later, rest'⟩, hlater, hsplit⟩ := Option.map_eq_some_iff.mp h
          obtain ⟨-, rfl⟩ := Prod.mk.inj hsplit
          exact Nat.lt_succ_of_lt (ih hlater)

theorem length_of_string? {bytes read rest : Bytes} (h : string? bytes = some (read, rest)) :
    rest.length < bytes.length := by
  cases bytes with
  | nil => simp [string?] at h
  | cons b bytes =>
    rw [string?] at h
    split at h
    · exact Nat.lt_succ_of_lt (length_of_literal? h)
    · split at h
      · exact Nat.lt_succ_of_lt (length_of_hexadecimal? h)
      · simp at h

theorem length_of_token? {bytes : Bytes} {t : Token} {rest : Bytes}
    (h : token? bytes = some (t, rest)) : rest.length < bytes.length := by
  induction bytes with
  | nil => simp [token?] at h
  | cons b bytes ih =>
    have hdrop := (List.dropWhile_suffix isRegular (l := bytes)).length_le
    have htail : bytes.tail.length ≤ bytes.length := by simp
    have hself := Nat.le_refl bytes.length
    have htaken : ∀ {t' : Token} {rest' : Bytes}, rest'.length ≤ bytes.length →
        some (t', rest') = some (t, rest) → rest.length < (b :: bytes).length := by
      intro t' rest' hle hsome
      obtain ⟨-, rfl⟩ := Prod.mk.inj (Option.some.inj hsome)
      exact Nat.lt_succ_of_le hle
    rw [token?] at h
    split at h
    · exact Nat.lt_succ_of_lt (ih h)
    split at h
    · exact htaken hdrop h
    split at h
    · exact htaken hdrop h
    split at h
    · exact htaken hself h
    split at h
    · exact htaken hself h
    split at h
    · exact htaken htail h
    split at h
    · exact htaken htail h
    obtain ⟨⟨read, rest'⟩, hread, hsplit⟩ := Option.map_eq_some_iff.mp h
    obtain ⟨-, rfl⟩ := Prod.mk.inj hsplit
    exact length_of_string? hread

/-- All tokens of a text, up to the first of some keywords if there is one, and what follows. -/
def tokens? (stops : List Bytes) (bytes : Bytes) : Option (List Token × Bytes) :=
  if bytes.all isSpace then some ([], [])
  else
    match _h : token? bytes with
    | none => none
    | some (t, rest) =>
      if t ∈ stops.map Token.word then some ([t], rest)
      else (tokens? stops rest).map fun (ts, rest) => (t :: ts, rest)
termination_by bytes.length
decreasing_by exact length_of_token? _h

/-! ## Tokens one after the other -/

namespace Lexed
variable {a b c : Bytes} {t : Token} {ts us : List Token}

theorem nil (bytes : Bytes) : Lexed bytes [] bytes := rfl

theorem cons (h : token? a = some (t, b)) (hrest : Lexed b ts c) : Lexed a (t :: ts) c := by
  unfold Lexed at hrest ⊢
  rw [List.length_cons, firstTokens?, h]
  simp [hrest]

theorem single (h : token? a = some (t, b)) : Lexed a [t] b := cons h (nil b)

theorem uncons (h : Lexed a (t :: ts) c) : ∃ b, token? a = some (t, b) ∧ Lexed b ts c := by
  unfold Lexed at h ⊢
  rw [List.length_cons, firstTokens?] at h
  cases ht : token? a with
  | none => simp [ht] at h
  | some read =>
    obtain ⟨t', b⟩ := read
    simp only [ht] at h
    obtain ⟨⟨ts', c'⟩, hread, hsplit⟩ := Option.map_eq_some_iff.mp h
    obtain ⟨htokens, rfl⟩ := Prod.mk.inj hsplit
    obtain ⟨rfl, rfl⟩ := List.cons.inj htokens
    exact ⟨b, rfl, hread⟩

theorem trans (h : Lexed a ts b) (hrest : Lexed b us c) : Lexed a (ts ++ us) c := by
  induction ts generalizing a with
  | nil =>
    obtain rfl : a = b := by simpa [Lexed, firstTokens?] using h
    exact hrest
  | cons t ts ih =>
    obtain ⟨d, ht, hts⟩ := h.uncons
    exact cons ht (ih hts)

end Lexed

theorem token?_space {b : UInt8} (h : isSpace b = true) (rest : Bytes) :
    token? (b :: rest) = token? rest := by
  rw [token?, if_pos h]

theorem Lexed.space {b : UInt8} {bytes rest : Bytes} {ts : List Token} (hb : isSpace b = true)
    (hne : ts ≠ []) (h : Lexed bytes ts rest) : Lexed (b :: bytes) ts rest := by
  obtain ⟨t, ts, rfl⟩ := List.exists_cons_of_ne_nil hne
  obtain ⟨more, ht, hts⟩ := h.uncons
  exact Lexed.cons ((token?_space hb bytes).trans ht) hts

theorem Lexed.blank {bytes rest : Bytes} {ts : List Token} (hne : ts ≠ [])
    (h : Lexed bytes ts rest) : Lexed (ascii " " ++ bytes) ts rest :=
  h.space rfl hne

/-- Items with white space between them, each read whenever it is followed by what may follow it. -/
theorem Lexed.intercalate {α : Type} {write : α → Bytes} {spell : α → List Token}
    {follows : Bytes → Prop} {s : UInt8} (hspace : isSpace s = true)
    (hfollows : ∀ rest, follows (s :: rest)) {items : List α} {rest : Bytes}
    (hread : ∀ a ∈ items,
      spell a ≠ [] ∧ ∀ rest, follows rest → Lexed (write a ++ rest) (spell a) rest)
    (hrest : follows rest) :
    Lexed (List.intercalate [s] (items.map write) ++ rest) (items.flatMap spell) rest := by
  induction items with
  | nil => exact Lexed.nil rest
  | cons a items ih =>
    obtain ⟨⟨_, ha⟩, hitems⟩ := List.forall_mem_cons.mp hread
    cases items with
    | nil => simpa using ha rest hrest
    | cons b items =>
      have hne : (b :: items).flatMap spell ≠ [] := by simp [(hitems b (by simp)).1]
      have hlater := (ih hitems).space hspace hne
      rw [List.map_cons, List.map_cons, List.intercalate_cons_cons, List.append_assoc,
        List.append_assoc, List.flatMap_cons]
      exact (ha _ (hfollows _)).trans hlater

theorem token?_of_all_isSpace {bytes : Bytes} (h : bytes.all isSpace = true) :
    token? bytes = none := by
  induction bytes with
  | nil => rfl
  | cons b bytes ih =>
    rw [List.all_cons, Bool.and_eq_true] at h
    rw [token?_space h.1, ih h.2]

theorem tokens?_cons {stops : List Bytes} {bytes rest : Bytes} {t : Token}
    (h : token? bytes = some (t, rest)) :
    tokens? stops bytes =
      if t ∈ stops.map Token.word then some ([t], rest)
      else (tokens? stops rest).map fun (ts, rest) => (t :: ts, rest) := by
  have hspace : ¬ bytes.all isSpace = true := by
    intro hall
    rw [token?_of_all_isSpace hall] at h
    simp at h
  rw [tokens?, if_neg hspace]
  split
  · rename_i hnone
    rw [h] at hnone
    simp at hnone
  · rename_i hsome
    rw [h] at hsome
    obtain ⟨rfl, rfl⟩ := Prod.mk.inj (Option.some.inj hsome)
    rfl

theorem Lexed.tokens? {stops : List Bytes} {bytes rest : Bytes} {ts : List Token}
    (h : Lexed bytes ts rest) (hts : ∀ t ∈ ts, t ∉ stops.map Token.word) :
    Pdf.tokens? stops bytes = (Pdf.tokens? stops rest).map fun (us, end') => (ts ++ us, end') := by
  induction ts generalizing bytes with
  | nil =>
    obtain rfl : bytes = rest := by simpa [Lexed, firstTokens?] using h
    simp
  | cons t ts ih =>
    obtain ⟨ht, hrest⟩ := List.forall_mem_cons.mp hts
    obtain ⟨more, htoken, hmore⟩ := h.uncons
    rw [tokens?_cons htoken, if_neg ht, ih hmore hrest]
    simp [Option.map_map, Function.comp_def]

theorem Lexed.tokens?_stop {stops : List Bytes} {bytes rest : Bytes} {ts : List Token} {t : Token}
    (h : Lexed bytes (ts ++ [t]) rest) (hts : ∀ t ∈ ts, t ∉ stops.map Token.word)
    (ht : t ∈ stops.map Token.word) : Pdf.tokens? stops bytes = some (ts ++ [t], rest) := by
  induction ts generalizing bytes with
  | nil =>
    obtain ⟨more, htoken, hmore⟩ := h.uncons
    obtain rfl : more = rest := by simpa [Lexed, firstTokens?] using hmore
    rw [tokens?_cons htoken, if_pos ht, List.nil_append]
  | cons first ts ih =>
    obtain ⟨hfirst, hrest⟩ := List.forall_mem_cons.mp hts
    obtain ⟨more, htoken, hmore⟩ := h.uncons
    rw [tokens?_cons htoken, if_neg hfirst, ih hmore hrest]
    rfl

/-! ## Words, names and strings -/

/-- A statement on the members of a list is decided by the list, also where there is an instance for
all characters or all bytes, which takes much longer. -/
scoped instance (priority := high) decidableForallMem {α : Type} (p : α → Prop) [DecidablePred p]
    (l : List α) : Decidable (∀ a ∈ l, p a) :=
  List.decidableBAll p l

structure IsWord (text : Bytes) : Prop where
  ne_nil : text ≠ []
  regular : ∀ b ∈ text, isRegular b = true

theorem isWord_iff {text : Bytes} :
    (text ≠ [] ∧ ∀ b ∈ text, isRegular b = true) ↔ IsWord text :=
  ⟨fun h => ⟨h.1, h.2⟩, fun h => ⟨h.ne_nil, h.regular⟩⟩

instance (text : Bytes) : Decidable (IsWord text) := decidable_of_iff _ isWord_iff

def EndsWord (rest : Bytes) : Prop := ∀ b ∈ rest.head?, isRegular b = false

theorem endsWord_cons {b : UInt8} (h : isRegular b = false) (rest : Bytes) :
    EndsWord (b :: rest) := by
  intro c hc
  obtain rfl : b = c := by simpa using hc
  exact h

variable {text rest : Bytes}

theorem takeWhile_isRegular (h : ∀ b ∈ text, isRegular b = true) (hrest : EndsWord rest) :
    (text ++ rest).takeWhile isRegular = text ∧ (text ++ rest).dropWhile isRegular = rest := by
  rw [List.takeWhile_append_of_pos h, List.dropWhile_append_of_pos h]
  cases rest with
  | nil => simp
  | cons b rest =>
    have hb : isRegular b = false := hrest b rfl
    simp [hb]

theorem token?_word (h : IsWord text) (hrest : EndsWord rest) :
    token? (text ++ rest) = some (.word text, rest) := by
  obtain ⟨b, text, rfl⟩ := List.exists_cons_of_ne_nil h.ne_nil
  obtain ⟨hb, htext⟩ := List.forall_mem_cons.mp h.regular
  obtain ⟨htake, hdrop⟩ := takeWhile_isRegular htext hrest
  have hspace : isSpace b = false := by
    unfold isRegular at hb
    simpa using (Bool.and_eq_true_iff.mp hb).1
  rw [List.cons_append, token?, if_neg (by simp [hspace]), if_pos hb, htake, hdrop]

theorem Lexed.keyword (text : String) (h : IsWord (ascii text))
    (hrest : EndsWord rest) : Lexed (ascii text ++ rest) [Pdf.keyword text] rest :=
  .single (token?_word h hrest)

theorem token?_name (h : ∀ b ∈ text, isRegular b = true) (hrest : EndsWord rest) :
    token? (47 :: text ++ rest) = some (.name text, rest) := by
  obtain ⟨htake, hdrop⟩ := takeWhile_isRegular h hrest
  rw [List.cons_append, token?, if_neg (by decide), if_neg (by decide), if_pos rfl, htake, hdrop]

theorem token?_literalString (bytes rest : Bytes) :
    token? (literalString bytes ++ rest) = some (.string bytes, rest) := by
  have hread := string?_literalString bytes rest
  rw [literalString, List.append_assoc, List.append_assoc, List.singleton_append] at hread ⊢
  have htoken : ∀ tail : Bytes, token? (openParen :: tail) =
      (string? (openParen :: tail)).map fun (bytes, rest) => (.string bytes, rest) :=
    fun _ => rfl
  rw [htoken, hread]
  rfl

theorem token?_hexString (bytes rest : Bytes) :
    token? (hexString bytes ++ rest) = some (.string bytes, rest) := by
  have hread := string?_hexString bytes rest
  have hstart : ascii "<" = [60] := rfl
  rw [hexString, hstart, List.append_assoc, List.append_assoc, List.singleton_append] at hread ⊢
  have hhead : (hex bytes ++ (ascii ">" ++ rest)).head? ≠ some 60 := by
    cases bytes with
    | nil => simp [hex, ascii]
    | cons b bytes =>
      have hdigit : ∀ n < 16, hexDigit n ≠ 60 := by decide
      have hb := b.toNat_lt
      rw [hex, List.flatMap_cons, hexDigits_bytes]
      simpa using hdigit (b.toNat / 16) (by omega)
  have htoken : ∀ tail : Bytes, tail.head? ≠ some 60 → token? (60 :: tail) =
      (string? (60 :: tail)).map fun (bytes, rest) => (.string bytes, rest) := by
    intro tail htail
    rw [token?, if_neg (by decide), if_neg (by decide), if_neg (by decide), if_neg (by decide),
      if_neg (by decide), if_neg (fun h => htail h.2), if_neg (fun h => absurd h.1 (by decide))]
  rw [htoken _ hhead, hread]
  rfl

theorem token?_byteString (bytes rest : Bytes) :
    token? (byteString bytes ++ rest) = some (.string bytes, rest) := by
  unfold byteString
  split
  · exact token?_literalString bytes rest
  · exact token?_hexString bytes rest

end Typesetter.Pdf

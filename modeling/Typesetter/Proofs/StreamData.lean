import Mathlib.Data.List.Chain
import Typesetter.Proofs.Objects

/-! # The data of streams

No line of a page's content starts like the keyword that ends a stream. So a reader who looks for
the keywords finds the same data as one who counts the bytes. -/
namespace Typesetter.Pdf

/-! ## Looking for a keyword -/

/-- What stands in front of the first occurrence of a text, and what stands behind it. -/
def cut? (marker : Bytes) : Bytes → Option (Bytes × Bytes)
  | [] => none
  | b :: rest =>
    if marker.isPrefixOf (b :: rest) then some ([], (b :: rest).drop marker.length)
    else (cut? marker rest).map fun (front, rest) => (b :: front, rest)

theorem cut?_append {marker front rest : Bytes} (hne : marker ≠ [])
    (h : ∀ before after, front = before ++ after → after ≠ [] →
      ¬ marker <+: after ++ (marker ++ rest)) :
    cut? marker (front ++ (marker ++ rest)) = some (front, rest) := by
  induction front with
  | nil =>
    obtain ⟨b, marker, rfl⟩ := List.exists_cons_of_ne_nil hne
    have hprefix : (b :: marker).isPrefixOf (b :: (marker ++ rest)) = true :=
      List.isPrefixOf_iff_prefix.mpr (List.prefix_append (b :: marker) rest)
    rw [List.nil_append, List.cons_append, cut?, if_pos hprefix, ← List.cons_append,
      List.drop_left]
  | cons b front ih =>
    have hprefix : ¬ marker.isPrefixOf (b :: (front ++ (marker ++ rest))) = true := by
      rw [List.isPrefixOf_iff_prefix]
      exact h [] (b :: front) rfl (List.cons_ne_nil _ _)
    have hfront := ih fun before after hsplit => h (b :: before) after (by rw [hsplit]; rfl)
    rw [List.cons_append, cut?, if_neg hprefix, hfront]
    rfl

def streamData? (bytes : Bytes) : Option Bytes :=
  (cut? (ascii "stream\n") bytes).bind fun (_, rest) =>
    (cut? (ascii "\nendstream") rest).map Prod.fst

/-! ## Lines of a page -/

/-- A line end is not followed by the letter that the last keyword begins with. -/
def Unended (data : Bytes) : Prop := data.IsChain fun a b => a = 10 → b ≠ 101

structure ContentLine (line : Bytes) : Prop where
  single : 10 ∉ line
  start : ∃ b rest, line = b :: rest ∧ b ≠ 101

theorem unended_intercalate {lines : List Bytes} (h : ∀ line ∈ lines, ContentLine line) :
    Unended (List.intercalate [10] lines) := by
  have hsingle : ∀ line, ContentLine line → Unended line := by
    intro line hline
    refine (List.pairwise_of_forall_mem_list fun a ha b _ hten => ?_).isChain
    exact absurd (hten ▸ ha) hline.single
  induction lines with
  | nil => exact List.isChain_nil
  | cons line lines ih =>
    obtain ⟨hline, hlines⟩ := List.forall_mem_cons.mp h
    cases lines with
    | nil => simpa using hsingle line hline
    | cons next lines =>
      obtain ⟨b, rest, hnext, hb⟩ := (hlines next (by simp)).start
      have hlater := ih hlines
      have hhead : (List.intercalate [10] (next :: lines)).head? = some b := by
        cases lines <;> simp [hnext, List.intercalate_cons_cons]
      have hbehind : Unended (10 :: List.intercalate [10] (next :: lines)) := by
        refine List.isChain_cons.mpr ⟨fun c hc _ => ?_, hlater⟩
        obtain rfl : b = c := by simpa [hhead] using hc
        exact hb
      rw [List.intercalate_cons_cons, List.append_assoc, List.singleton_append]
      refine List.isChain_append.mpr ⟨hsingle line hline, hbehind, fun _ _ c hc _ => ?_⟩
      obtain rfl : 10 = c := by simpa using hc
      decide

theorem ten_not_mem_escapeByte (bare : Bool) (b : UInt8) : 10 ∉ escapeByte bare b := by
  have hall : ∀ n < 256, ∀ bare, 10 ∉ escapeByte bare n.toUInt8 := by
    decide +kernel
  have hb := hall b.toNat b.toNat_lt bare
  rwa [Nat.toUInt8_eq, UInt8.ofNat_toNat] at hb

theorem ten_not_mem_hex (bytes : Bytes) : 10 ∉ hex bytes := by
  have hdigit : ∀ n < 16, hexDigit n ≠ 10 := by decide
  intro hmem
  obtain ⟨b, -, hb⟩ := List.mem_flatMap.mp hmem
  rw [hexDigits_bytes] at hb
  have hlt := b.toNat_lt
  rcases List.mem_cons.mp hb with hb | hb
  · exact hdigit (b.toNat / 16) (by omega) hb.symm
  · exact hdigit (b.toNat % 16) (by omega) (List.mem_singleton.mp hb).symm

theorem ten_not_mem_byteString (bytes : Bytes) : 10 ∉ byteString bytes := by
  unfold byteString
  split
  · simp only [literalString, List.mem_append, List.mem_flatMap, not_or, not_exists, not_and]
    exact ⟨⟨by decide, fun b _ => ten_not_mem_escapeByte _ b⟩, by decide⟩
  · simp only [hexString, List.mem_append, not_or]
    exact ⟨⟨by decide, ten_not_mem_hex bytes⟩, by decide⟩

theorem contentLine_number (x : Numeric.Single) {rest : Bytes} (hrest : 10 ∉ rest) :
    ContentLine (ascii (number x) ++ rest) := by
  obtain ⟨hnumeral, hne⟩ := numeral_number x
  have hbytes := hnumeral.forall_mem_ascii (P := fun b => b ≠ 10 ∧ b ≠ 101) (by decide) (by decide)
  obtain ⟨b, digits, hdigits⟩ := List.exists_cons_of_ne_nil (hnumeral.isWord hne).ne_nil
  constructor
  · rw [List.mem_append, not_or]
    exact ⟨fun hmem => (hbytes 10 hmem).1 rfl, hrest⟩
  · refine ⟨b, digits ++ rest, by rw [hdigits]; rfl, (hbytes b ?_).2⟩
    rw [hdigits]
    exact List.mem_cons_self

theorem ten_not_mem_number (x : Numeric.Single) : 10 ∉ ascii (number x) := by
  intro hmem
  exact absurd ((isWord_number x).regular 10 hmem) (by decide)

theorem Operator.contentLine (o : Operator) : ContentLine o.bytes := by
  cases o with
  | beginText => exact ⟨by decide, _, _, rfl, by decide⟩
  | endText => exact ⟨by decide, _, _, rfl, by decide⟩
  | moveBy x y =>
    have hrest : 10 ∉ ascii " " ++ (ascii (number y) ++ ascii " Td") := by
      simp only [List.mem_append, not_or]
      exact ⟨by decide, ten_not_mem_number y, by decide⟩
    simp only [bytes, ascii_append, List.append_assoc]
    exact contentLine_number x hrest
  | setFont face size =>
    have hname : 10 ∉ ascii face.fontName := by cases face <;> decide
    simp only [bytes, ascii_append, List.append_assoc]
    refine ⟨?_, _, _, rfl, by decide⟩
    simp only [List.mem_append, not_or]
    exact ⟨by decide, hname, by decide, ten_not_mem_number size, by decide⟩
  | showText codes =>
    have hstart : ∃ b rest, byteString codes = b :: rest ∧ b ≠ 101 := by
      unfold byteString
      split <;> exact ⟨_, _, rfl, by decide⟩
    obtain ⟨b, rest, hcodes, hb⟩ := hstart
    refine ⟨?_, b, rest ++ ascii " Tj", by rw [bytes, hcodes]; rfl, hb⟩
    rw [bytes, List.mem_append, not_or]
    exact ⟨ten_not_mem_byteString codes, by decide⟩

theorem unended_contentBytes (operators : List Operator) : Unended (contentBytes operators) := by
  refine unended_intercalate fun line hline => ?_
  obtain ⟨o, -, rfl⟩ := List.mem_map.mp hline
  exact o.contentLine

/-! ## Stream objects -/

def streamFront (n length : Nat) : Bytes :=
  ascii (toString n ++ " 0 obj\n<<\n  /Length " ++ toString length ++ "\n>>\n")

theorem NumberedObject.bytes_of_stream {o : NumberedObject} {data : Bytes}
    (h : o.object = .stream data) :
    o.bytes = streamFront o.number data.length ++ (ascii "stream\n" ++ (data ++
      (ascii "\nendstream" ++ ascii "\nendobj\n\n"))) := by
  have hfront : ascii " 0 obj\n<<\n  /Length " = ascii " 0 obj\n" ++ ascii "<<\n  /Length " := rfl
  have hmiddle : ascii "\n>>\nstream\n" = ascii "\n>>\n" ++ ascii "stream\n" := rfl
  simp only [NumberedObject.bytes, h, Object.bytes, streamFront, ascii_append, hfront, hmiddle,
    List.append_assoc]

theorem ne_of_mem_streamFront {n length : Nat} {b : UInt8} (h : b ∈ streamFront n length) :
    b ≠ 115 := by
  have hnumber : ∀ n : Nat, ∀ b ∈ ascii (toString n), b ≠ 115 :=
    fun n => (numeral_nat n).forall_mem_ascii (by decide) (by decide)
  have htext : ∀ b ∈ ascii " 0 obj\n<<\n  /Length " ++ ascii "\n>>\n", b ≠ 115 := by decide
  simp only [streamFront, ascii_append, List.mem_append] at h htext
  rcases h with ((h | h) | h) | h
  · exact hnumber n b h
  · exact htext b (Or.inl h)
  · exact hnumber length b h
  · exact htext b (Or.inr h)

theorem streamData?_bytes {o : NumberedObject} {data : Bytes} (h : o.object = .stream data)
    (hdata : Unended data) : streamData? o.bytes = some data := by
  have hstart : ∀ rest : Bytes,
      cut? (ascii "stream\n") (streamFront o.number data.length ++ (ascii "stream\n" ++ rest)) =
        some (streamFront o.number data.length, rest) := by
    intro rest
    -- The keyword would have to begin with a byte of the front.
    refine cut?_append (by decide) fun before after hsplit hafter hprefix => ?_
    obtain ⟨b, after, rfl⟩ := List.exists_cons_of_ne_nil hafter
    have hb : b ∈ streamFront o.number data.length := by simp [hsplit]
    obtain ⟨_, hmarker⟩ := hprefix
    exact ne_of_mem_streamFront hb (List.cons.inj hmarker).1.symm
  have hend : ∀ rest : Bytes, cut? (ascii "\nendstream") (data ++ (ascii "\nendstream" ++ rest)) =
      some (data, rest) := by
    intro rest
    refine cut?_append (by decide) fun before after hsplit hafter hprefix => ?_
    obtain ⟨b, after, rfl⟩ := List.exists_cons_of_ne_nil hafter
    obtain ⟨_, hmarker⟩ := hprefix
    obtain ⟨rfl, hnext⟩ := List.cons.inj hmarker
    cases after with
    | nil => exact absurd (List.cons.inj hnext).1 (by decide)
    | cons c after =>
      obtain ⟨rfl, -⟩ := List.cons.inj hnext
      rw [hsplit, Unended, List.isChain_append] at hdata
      exact (List.isChain_cons_cons.mp hdata.2.1).1 rfl rfl
  rw [streamData?, NumberedObject.bytes_of_stream h, hstart, Option.bind_some]
  dsimp only
  rw [hend, Option.map_some]

end Typesetter.Pdf

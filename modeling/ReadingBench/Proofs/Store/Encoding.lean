import ReadingBench.Proofs.Sql.ReadBack
import ReadingBench.Proofs.Sql.Unambiguous
import ReadingBench.Proofs.Store.Tuple

namespace ReadingBench

open Text

namespace Sql

open Reader

/-- A text without quotes and without the separator of encoded keys. -/
structure Plain (cs : List Char) : Prop where
  nonempty : cs ≠ []
  unquoted : '\'' ∉ cs
  whole : '\x1f' ∉ cs

instance (cs : List Char) : Decidable (Plain cs) :=
  decidable_of_iff (cs ≠ [] ∧ '\'' ∉ cs ∧ '\x1f' ∉ cs)
    ⟨fun ⟨nonempty, unquoted, whole⟩ => ⟨nonempty, unquoted, whole⟩,
      fun ⟨nonempty, unquoted, whole⟩ => ⟨nonempty, unquoted, whole⟩⟩

theorem plain_of_isNumberChar {cs : List Char} (nonempty : cs ≠ []) (h : ∀ c ∈ cs, isNumberChar c) :
    Plain cs where
  nonempty := nonempty
  unquoted hc := absurd (h _ hc) (by decide)
  whole hc := absurd (h _ hc) (by decide)

/-- The text of a value as it stands in a statement: quoted or plain. -/
inductive Rendered : List Char → Prop where
  | quoted (cs : List Char) : Rendered (quote '\'' cs)
  | plain {cs : List Char} (h : Plain cs) : Rendered cs

theorem Value.rendered (v : Value) : Rendered v.literalChars := by
  cases v with
  | null => exact .plain (by decide : Plain ['N', 'U', 'L', 'L'])
  | int n =>
    have hvisible := (int n).visible
    obtain ⟨c, tail, hcs, -⟩ := hvisible
    exact .plain (plain_of_isNumberChar (by simp [hcs]) fun c hc => isNumberChar_of_mem_signed hc)
  | float x =>
    cases hfinite : (float x).isFinite with
    | true =>
      have hpositional := signedPositional_literalChars hfinite
      obtain ⟨c, tail, hcs, -⟩ := (float x).visible
      exact .plain (plain_of_isNumberChar (by simp [hcs]) (isNumberChar_of_mem hpositional))
    | false =>
      have hwords : ∀ cs ∈ endlessTexts, Plain cs := by decide
      exact .plain (hwords _ (endless_literalChars hfinite))
  | text s => exact .quoted _
  | dateTime t => exact .quoted _
  | date d => exact .quoted _

/-- Behind a literal of an encoded key stands a separator or nothing. -/
def Separated (r : List Char) : Prop := ∀ c ∈ r.head?, c = '\x1f'

theorem Plain.append_inj {u v r r' : List Char} (hu : Plain u) (hv : Plain v) (hr : Separated r)
    (hr' : Separated r') (h : u ++ r = v ++ r') : u = v ∧ r = r' := by
  have htaken : ∀ {w s : List Char}, Plain w → Separated s → (w ++ s).takeWhile (· ≠ '\x1f') = w := by
    intro w s hw hs
    rw [List.takeWhile_append_of_pos (fun c hc => by simpa using ne_of_mem_of_not_mem hc hw.whole)]
    cases s with
    | nil => simp
    | cons c s => simp [hs c rfl]
  have hsame : u = v := by rw [← htaken hu hr, h, htaken hv hr']
  subst hsame
  exact ⟨rfl, List.append_cancel_left h⟩

theorem Plain.ne_quote {u r r' cs : List Char} (hu : Plain u) : u ++ r ≠ quote '\'' cs ++ r' := by
  intro h
  cases u with
  | nil => exact hu.nonempty rfl
  | cons c u =>
    obtain ⟨rfl, -⟩ := List.cons.inj h
    exact hu.unquoted List.mem_cons_self

/-- A literal shows where it ends. -/
theorem Rendered.append_inj {u v r r' : List Char} (hu : Rendered u) (hv : Rendered v) (hr : Separated r)
    (hr' : Separated r') (h : u ++ r = v ++ r') : u = v ∧ r = r' := by
  have hmark : ∀ {s : List Char}, Separated s → s.head? ≠ some '\'' := by
    intro s hs hhead
    exact absurd (hs _ hhead) (by decide)
  cases hu with
  | quoted cs =>
    cases hv with
    | quoted ds =>
      obtain ⟨rfl, hrest⟩ := quote_append_inj (hmark hr) (hmark hr') h
      exact ⟨rfl, hrest⟩
    | plain hv => exact absurd h.symm hv.ne_quote
  | plain hu =>
    cases hv with
    | quoted ds => exact absurd h hu.ne_quote
    | plain hv => exact hu.append_inj hv hr hr' h

/-- The literals of a key from the second on, each behind its separator. -/
def laterLiterals (us : List (List Char)) : List Char := us.flatMap ('\x1f' :: ·)

theorem intercalate_eq_append (u : List Char) (us : List (List Char)) :
    ['\x1f'].intercalate (u :: us) = u ++ laterLiterals us := by
  induction us generalizing u with
  | nil => simp [laterLiterals]
  | cons v us ih =>
    rw [List.intercalate_cons_cons, ih]
    simp [laterLiterals]

theorem separated_laterLiterals (us : List (List Char)) : Separated (laterLiterals us) := by
  cases us <;> simp [Separated, laterLiterals]

theorem laterLiterals_inj {us vs : List (List Char)} (hus : ∀ u ∈ us, Rendered u)
    (hvs : ∀ v ∈ vs, Rendered v) (h : laterLiterals us = laterLiterals vs) : us = vs := by
  induction us generalizing vs with
  | nil =>
    cases vs with
    | nil => rfl
    | cons v vs => cases h
  | cons u us ih =>
    cases vs with
    | nil => cases h
    | cons v vs =>
      have hfirst : u ++ laterLiterals us = v ++ laterLiterals vs := (List.cons.inj h).2
      obtain ⟨rfl, hlater⟩ := (hus u List.mem_cons_self).append_inj (hvs v List.mem_cons_self)
        (separated_laterLiterals us) (separated_laterLiterals vs) hfirst
      rw [ih (fun w hw => hus w (List.mem_cons_of_mem _ hw)) (fun w hw => hvs w (List.mem_cons_of_mem _ hw)) hlater]

/-- Literals with separators between them are told apart, if there are as many on both sides. -/
theorem intercalate_rendered_inj {us vs : List (List Char)} (same : us.length = vs.length)
    (hus : ∀ u ∈ us, Rendered u) (hvs : ∀ v ∈ vs, Rendered v)
    (h : ['\x1f'].intercalate us = ['\x1f'].intercalate vs) : us = vs := by
  cases us with
  | nil => exact (List.length_eq_zero_iff.1 same.symm).symm
  | cons u us =>
    cases vs with
    | nil => cases same
    | cons v vs =>
      rw [intercalate_eq_append, intercalate_eq_append] at h
      refine laterLiterals_inj hus hvs ?_
      exact congrArg ('\x1f' :: ·) h

end Sql

namespace Store.TableSpec

open Sql Outcome

/-- What a row has in a column of its table. -/
def valueIn (spec : TableSpec) (row : Tuple) (column : String) : Value :=
  match spec.columns.idxOf? column with
  | some i => row.getD i .null
  | none => .null

variable {spec : TableSpec} {row : Tuple}

theorem valueIn_of_position {column : String} {i : Nat} (h : spec.position column = .ok i) :
    spec.valueIn row column = row.getD i .null := by
  rw [valueIn, position_eq_ok.1 h]

theorem keyParts_eq_some {key parts : List String} (h : spec.keyParts row key = .ok (some parts)) :
    parts = key.map fun column => (spec.valueIn row column).literal := by
  induction key generalizing parts with
  | nil => exact (Option.some.inj (pure_eq_ok.1 h)).symm
  | cons column key ih =>
    obtain ⟨i, hi, h⟩ := bind_eq_ok.1 h
    split at h
    · cases h
    · obtain ⟨rest, hrest, h⟩ := bind_eq_ok.1 h
      cases rest with
      | none => cases h
      | some rest =>
        obtain rfl := Option.some.inj (pure_eq_ok.1 h)
        rw [List.map_cons, valueIn_of_position hi, ih hrest]

/-- An encoded key is the literals of its columns with separators between them. -/
theorem keyOf_eq_some {key : List String} {k : String} (h : spec.keyOf row key = .ok (some k)) :
    k.toList = ['\x1f'].intercalate (key.map fun column => (spec.valueIn row column).literalChars) := by
  obtain ⟨parts, hparts, h⟩ := bind_eq_ok.1 h
  cases parts with
  | none => cases h
  | some parts =>
    obtain rfl := Option.some.inj (pure_eq_ok.1 h)
    rw [keyParts_eq_some hparts, String.toList_intercalate, List.map_map]
    simp only [Function.comp_def, Value.literal, String.toList_ofList]
    rfl

/-- Two rows have the same encoded key exactly if their literals agree in every column of the key. -/
theorem keyOf_eq_iff {key : List String} {a b : Tuple} {k l : String} (ha : spec.keyOf a key = .ok (some k))
    (hb : spec.keyOf b key = .ok (some l)) :
    k = l ↔ ∀ column ∈ key, (spec.valueIn a column).literal = (spec.valueIn b column).literal := by
  have hrendered : ∀ row : Tuple, ∀ u ∈ key.map fun column => (spec.valueIn row column).literalChars,
      Rendered u := fun row => List.forall_mem_map.2 fun column _ => (spec.valueIn row column).rendered
  rw [← String.toList_inj, keyOf_eq_some ha, keyOf_eq_some hb]
  constructor
  · intro h column hcolumn
    have hparts := intercalate_rendered_inj (by simp) (hrendered a) (hrendered b) h
    exact congrArg String.ofList (List.map_inj_left.1 hparts column hcolumn)
  · intro h
    rw [List.map_congr_left fun column hcolumn => String.ofList_injective (h column hcolumn)]

/-- Two columns that are its key. -/
def pairSpec : TableSpec := ⟨⟨none, "t"⟩, ["x", "y"], [["x", "y"]]⟩

/-- Quotes and separators inside the values do not shift the bounds of a key's parts. -/
theorem keyOf_eq_iff_shifted :
    ∃ k l, pairSpec.keyOf [.text "a'\x1f'b", .text "c"] ["x", "y"] = .ok (some k) ∧
      pairSpec.keyOf [.text "a", .text "b'\x1f'c"] ["x", "y"] = .ok (some l) ∧ k ≠ l := by
  have hleft : pairSpec.keyOf [.text "a'\x1f'b", .text "c"] ["x", "y"] = .ok (some _) := rfl
  have hright : pairSpec.keyOf [.text "a", .text "b'\x1f'c"] ["x", "y"] = .ok (some _) := rfl
  refine ⟨_, _, hleft, hright, fun h => ?_⟩
  have hx := (keyOf_eq_iff hleft hright).1 h "x" List.mem_cons_self
  exact absurd (String.ofList_injective hx) (by decide)

end Store.TableSpec
end ReadingBench

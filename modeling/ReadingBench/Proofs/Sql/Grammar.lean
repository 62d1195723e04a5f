import ReadingBench.Proofs.Decimal.Numeral
import ReadingBench.Proofs.Sql.Reader

namespace ReadingBench.Sql

open Text Reader Outcome

namespace Grammar

def Blanks (gap : List Char) : Prop := ∀ c ∈ gap, isBlank c

theorem Blanks.append {gap more : List Char} (h : Blanks gap) (h' : Blanks more) : Blanks (gap ++ more) :=
  fun c hc => (List.mem_append.1 hc).elim (h c) (h' c)

/-- A minus sign or a digit comes first. -/
def StartsNumber (cs : List Char) : Prop := cs.head?.any fun c => c = '-' || Decimal.isDigit c

/-- Number characters from a minus sign or a digit on, as many as there are. -/
structure NumberRun (run rest : List Char) : Prop where
  starts : StartsNumber run
  chars : ∀ c ∈ run, isNumberChar c
  longest : ¬rest.head?.any isNumberChar

inductive Number : List Char → Value → Prop where
  | int {run : List Char} {n : Int64} (integer : Decimal.Integer run n.toInt) : Number run (.int n)
  | float {run : List Char} {x : Float} (other : ∀ n : Int64, ¬Decimal.Integer run n.toInt)
      (floating : Decimal.Floating run x) : Number run (.float x)

/-- A literal, its value and the characters behind it, which say where NULL and numbers end. -/
inductive Literal : List Char → Value → List Char → Prop where
  | text (s : String) (rest : List Char) : Literal (quote '\'' s.toList) (.text s) rest
  | null {word rest : List Char} (same : word.map Char.toUpper = "NULL".toList)
      (ends : ¬rest.head?.any isWordChar) : Literal word .null rest
  | number {run rest : List Char} {v : Value} (longest : NumberRun run rest) (number : Number run v) :
      Literal run v rest

section Lists

variable {α : Type} (Item : List Char → α → List Char → Prop)

/-- One item or more with commas between them. White space may stand before each item and each comma. -/
inductive Items : List Char → List α → List Char → Prop where
  | one {gap text rest : List Char} {a : α} (blanks : Blanks gap) (item : Item text a rest) :
      Items (gap ++ text) [a] rest
  | more {gap text before others rest : List Char} {a : α} {as : List α} (blanks : Blanks gap)
      (item : Item text a (before ++ ',' :: (others ++ rest))) (blanks' : Blanks before)
      (items : Items others as rest) : Items (gap ++ (text ++ (before ++ ',' :: others))) (a :: as) rest

inductive Bracketed : List Char → List α → List Char → Prop where
  | list {text close rest : List Char} {as : List α} (items : Items Item text as (close ++ ')' :: rest))
      (blanks : Blanks close) : Bracketed ('(' :: (text ++ (close ++ [')']))) as rest

end Lists

/-- Tuples of literals, and white space at the end. -/
inductive ValueList : List Char → List (List Value) → Prop where
  | tuples {text gap : List Char} {rows : List (List Value)} (items : Items (Bracketed Literal) text rows gap)
      (blanks : Blanks gap) : ValueList (text ++ gap) rows

end Grammar

open Grammar

namespace Reader

variable {α β : Type}

theorem bind_run_eq_ok {r : Reader α} {f : α → Reader β} {cs rest : List Char} {b : β} :
    (r >>= f) cs = .ok (b, rest) ↔ ∃ a mid, r cs = .ok (a, mid) ∧ f a mid = .ok (b, rest) := by
  rw [bind_run, bind_eq_ok, Prod.exists]

theorem pure_run_eq_ok {a b : α} {cs rest : List Char} :
    (pure a : Reader α) cs = .ok (b, rest) ↔ a = b ∧ cs = rest := by
  rw [← Prod.mk.injEq]
  exact pure_eq_ok

theorem exists_gap (cs : List Char) : ∃ gap, Blanks gap ∧ cs = gap ++ skipBlank cs :=
  ⟨cs.takeWhile isBlank, fun _ hc => List.mem_takeWhile_imp hc, List.takeWhile_append_dropWhile.symm⟩

theorem eat_eq_ok {c : Char} {cs rest : List Char} {taken : Bool} (h : eat c cs = .ok (taken, rest)) :
    (taken = true ∧ skipBlank cs = c :: rest) ∨ (taken = false ∧ rest = skipBlank cs) := by
  by_cases hhead : (skipBlank cs).head? = some c
  · obtain ⟨tail, htail⟩ := List.head?_eq_some_iff.1 hhead
    rw [eat_hit htail] at h
    obtain ⟨rfl, rfl⟩ := Prod.mk.inj (Except.ok.inj h)
    exact .inl ⟨rfl, htail⟩
  · rw [eat_miss hhead] at h
    obtain ⟨rfl, rfl⟩ := Prod.mk.inj (Except.ok.inj h)
    exact .inr ⟨rfl, rfl⟩

theorem expect_eq_ok {c : Char} {cs rest : List Char} {u : Unit} (h : expect c cs = .ok (u, rest)) :
    skipBlank cs = c :: rest := by
  rw [expect, bind_run_eq_ok] at h
  obtain ⟨taken, mid, heat, h⟩ := h
  rcases eat_eq_ok heat with ⟨rfl, hskip⟩ | ⟨rfl, -⟩
  · obtain ⟨-, rfl⟩ := pure_run_eq_ok.1 h
    exact hskip
  · cases h

/-- A mark that is expected, with the white space before it. -/
theorem exists_of_expect {c : Char} {cs rest : List Char} {u : Unit} (h : expect c cs = .ok (u, rest)) :
    ∃ gap, Blanks gap ∧ cs = gap ++ c :: rest := by
  obtain ⟨gap, blanks, hcs⟩ := exists_gap cs
  rw [expect_eq_ok h] at hcs
  exact ⟨gap, blanks, hcs⟩

theorem afterWord?_eq_some_iff {word : String} {cs rest : List Char} : afterWord? word cs = some rest ↔
    ∃ head, cs = head ++ rest ∧ head.map Char.toUpper = word.toList ∧ ¬rest.head?.any isWordChar := by
  unfold afterWord?
  dsimp only
  constructor
  · intro h
    split at h
    case isTrue found =>
      obtain rfl := Option.some.inj h
      exact ⟨cs.take word.length, (List.take_append_drop _ _).symm, found⟩
    case isFalse => cases h
  · rintro ⟨head, rfl, same, ends⟩
    have hlength : word.length = head.length := by
      rw [← String.length_toList, ← same, List.length_map]
    rw [hlength, List.take_left, List.drop_left, if_pos ⟨same, ends⟩]

theorem eatWord_eq_ok {word : String} {cs rest : List Char} {taken : Bool}
    (h : eatWord word cs = .ok (taken, rest)) :
    taken = false ∨ afterWord? word (skipBlank cs) = some rest := by
  rw [eatWord, ok_bind_run (blanks_run cs), get_bind_run] at h
  cases hafter : afterWord? word (skipBlank cs) with
  | none =>
    rw [hafter] at h
    exact .inl (pure_run_eq_ok.1 h).1.symm
  | some tail =>
    rw [hafter] at h
    exact .inr (congrArg some (pure_run_eq_ok.1 h).2)

end Reader

namespace Grammar

theorem isNumberChar_of_start {c : Char} (h : c = '-' || Decimal.isDigit c) : isNumberChar c := by
  rw [Bool.or_eq_true, decide_eq_true_eq] at h
  rcases h with rfl | h
  · decide
  · simp [isNumberChar, h]

theorem numberRun_takeWhile {cs : List Char} (starts : StartsNumber cs) :
    NumberRun (cs.takeWhile isNumberChar) (cs.dropWhile isNumberChar) where
  starts := by
    cases cs with
    | nil => exact starts
    | cons c cs =>
      rw [List.takeWhile_cons_of_pos (isNumberChar_of_start starts)]
      exact starts
  chars _ hc := List.mem_takeWhile_imp hc
  longest := by
    have hhead := List.head?_dropWhile_not isNumberChar cs
    cases hrest : (cs.dropWhile isNumberChar).head? with
    | none => decide
    | some c =>
      rw [hrest] at hhead
      simpa using hhead

/-- An integer if it reads as one, else a float. -/
theorem number_iff {run : List Char} {v : Value} : Number run v ↔
    ((Decimal.readInt64? run).map Value.int).or ((Decimal.readFloat? run).map Value.float) = some v := by
  constructor
  · intro h
    cases h with
    | int integer =>
      rw [Decimal.readInt64?_eq_some_iff.2 integer]
      rfl
    | float other floating =>
      have hint : Decimal.readInt64? run = none :=
        Option.eq_none_iff_forall_ne_some.2 fun n h => other n (Decimal.readInt64?_eq_some_iff.1 h)
      rw [hint, Decimal.readFloat?_eq_some_iff.2 floating]
      rfl
  · intro h
    cases hint : Decimal.readInt64? run with
    | some n =>
      rw [hint] at h
      obtain rfl := Option.some.inj h
      exact .int (Decimal.readInt64?_eq_some_iff.1 hint)
    | none =>
      rw [hint] at h
      obtain ⟨x, hfloat, rfl⟩ := Option.map_eq_some_iff.1 h
      refine .float (fun n integer => ?_) (Decimal.readFloat?_eq_some_iff.1 hfloat)
      rw [Decimal.readInt64?_eq_some_iff.2 integer] at hint
      cases hint

theorem eq_of_toUpper {c : Char} (h : c.toUpper = 'N') : c = 'n' ∨ c = 'N' := by
  unfold Char.toUpper at h
  split at h
  case isTrue lower =>
    have hval := congrArg Char.val h
    dsimp only at hval
    have hn : 'n'.val + ('A'.val - 'a'.val) = 'N'.val := by decide
    rw [← hn, UInt32.add_left_inj] at hval
    exact .inl (Char.ext hval)
  case isFalse => exact .inr h

theorem exists_of_null {word : List Char} (same : word.map Char.toUpper = "NULL".toList) :
    ∃ c tail, word = c :: tail ∧ (c = 'n' ∨ c = 'N') := by
  cases word with
  | nil => cases same
  | cons c tail => exact ⟨c, tail, rfl, eq_of_toUpper (List.cons.inj same).1⟩

theorem Literal.visible {text rest : List Char} {v : Value} (h : Literal text v rest) : Visible text := by
  cases h with
  | text s => exact ⟨'\'', _, rfl, by decide⟩
  | null same _ =>
    obtain ⟨c, tail, rfl, hc⟩ := exists_of_null same
    refine ⟨c, tail, rfl, ?_⟩
    rcases hc with rfl | rfl <;> decide
  | number longest _ =>
    have starts := longest.starts
    cases text with
    | nil => cases starts
    | cons c tail =>
      refine ⟨c, tail, rfl, ?_⟩
      rcases (Bool.or_eq_true _ _).mp starts with hminus | hdigit
      · obtain rfl := of_decide_eq_true hminus
        decide
      · exact Decimal.not_isBlank_of_isDigit hdigit

end Grammar

/-- What is read of a quoted text is what was quoted. -/
theorem readBody?_eq_some {mark : Char} {cs text rest : List Char} (h : readBody? mark cs = some (text, rest)) :
    cs = quotedBody mark text ++ mark :: rest := by
  fun_induction readBody? mark cs generalizing text with
  | case1 => cases h
  | case2 =>
    obtain ⟨rfl, rfl⟩ := Prod.mk.inj (Option.some.inj h)
    rfl
  | case3 => cases h
  | case4 cs ih =>
    obtain ⟨⟨inner, behind⟩, hinner, h⟩ := Option.map_eq_some_iff.1 h
    obtain ⟨rfl, rfl⟩ := Prod.mk.inj h
    rw [ih hinner]
    simp [quotedBody]
  | case5 d cs other =>
    obtain ⟨rfl, rfl⟩ := Prod.mk.inj (Option.some.inj h)
    rfl
  | case6 c d cs other ih =>
    obtain ⟨⟨inner, behind⟩, hinner, h⟩ := Option.map_eq_some_iff.1 h
    obtain ⟨rfl, rfl⟩ := Prod.mk.inj h
    rw [ih hinner]
    simp [quotedBody, other]

namespace Reader

variable {α : Type}

theorem number_eq_ok_iff {cs rest : List Char} {v : Value} : number cs = .ok (v, rest) ↔
    Number (cs.takeWhile isNumberChar) v ∧ cs.dropWhile isNumberChar = rest := by
  rw [number, get_bind_run, get_bind_run, set_bind_run, number_iff]
  cases Decimal.readInt64? (cs.takeWhile isNumberChar) with
  | some n => exact pure_run_eq_ok.trans (and_congr_left fun _ => Option.some_inj.symm)
  | none =>
    cases Decimal.readFloat? (cs.takeWhile isNumberChar) with
    | some x => exact pure_run_eq_ok.trans (and_congr_left fun _ => Option.some_inj.symm)
    | none =>
      constructor
      · intro h
        cases h
      · rintro ⟨h, -⟩
        cases h

theorem body_eq_ok {mark : Char} {unclosed : Missing} {cs rest : List Char} {s : String}
    (h : body mark unclosed cs = .ok (s, rest)) : cs = quotedBody mark s.toList ++ mark :: rest := by
  rw [body, get_bind_run] at h
  cases hbody : readBody? mark cs with
  | none =>
    rw [hbody] at h
    cases h
  | some found =>
    obtain ⟨text, behind⟩ := found
    rw [hbody] at h
    obtain ⟨rfl, rfl⟩ := pure_run_eq_ok.1 h
    rw [String.toList_ofList]
    exact readBody?_eq_some hbody

theorem literal_of_quote {cs tail : List Char} (h : skipBlank cs = '\'' :: tail) :
    literal cs = (do return .text (← body '\'' .textEnd) : Reader Value) tail := by
  rw [literal, ok_bind_run (blanks_run cs), get_bind_run, h]
  rfl

theorem literal_of_start {cs : List Char} (starts : StartsNumber (skipBlank cs)) :
    literal cs = number (skipBlank cs) := by
  rw [literal, ok_bind_run (blanks_run cs), get_bind_run]
  generalize skipBlank cs = ds at starts
  refine congrFun ?_ ds
  split
  case h_1 tail => exact absurd starts (by decide : ¬('\'' = '-' || Decimal.isDigit '\''))
  case h_2 => exact if_pos starts

theorem literal_of_other {cs : List Char} (unquoted : (skipBlank cs).head? ≠ some '\'')
    (other : ¬StartsNumber (skipBlank cs)) :
    literal cs = (do if ← eatWord "NULL" then return .null else stop .literal : Reader Value) (skipBlank cs) := by
  rw [literal, ok_bind_run (blanks_run cs), get_bind_run]
  generalize skipBlank cs = ds at unquoted other
  refine congrFun ?_ ds
  split
  case h_1 tail => exact absurd rfl unquoted
  case h_2 => exact if_neg other

theorem literal_sound {cs rest : List Char} {v : Value} (h : literal cs = .ok (v, rest)) :
    ∃ gap text, Blanks gap ∧ cs = gap ++ (text ++ rest) ∧ Literal text v rest := by
  obtain ⟨gap, blanks, hcs⟩ := exists_gap cs
  suffices hliteral : ∃ text, skipBlank cs = text ++ rest ∧ Literal text v rest by
    obtain ⟨text, htext, hliteral⟩ := hliteral
    exact ⟨gap, text, blanks, htext ▸ hcs, hliteral⟩
  by_cases quoted : (skipBlank cs).head? = some '\''
  · obtain ⟨tail, htail⟩ := List.head?_eq_some_iff.1 quoted
    rw [literal_of_quote htail, bind_run_eq_ok] at h
    obtain ⟨s, mid, hbody, h⟩ := h
    obtain ⟨rfl, rfl⟩ := pure_run_eq_ok.1 h
    refine ⟨quote '\'' s.toList, ?_, .text s mid⟩
    rw [htail, body_eq_ok hbody, quote, List.cons_append, List.append_assoc, List.singleton_append]
  · by_cases starts : StartsNumber (skipBlank cs)
    · rw [literal_of_start starts] at h
      obtain ⟨number, rfl⟩ := number_eq_ok_iff.1 h
      exact ⟨_, List.takeWhile_append_dropWhile.symm, .number (numberRun_takeWhile starts) number⟩
    · rw [literal_of_other quoted starts, bind_run_eq_ok] at h
      obtain ⟨taken, mid, hword, h⟩ := h
      cases taken with
      | false => cases h
      | true =>
        obtain ⟨rfl, rfl⟩ := pure_run_eq_ok.1 h
        have hafter := (eatWord_eq_ok hword).resolve_left Bool.noConfusion
        rw [skipBlank, skipBlank, List.dropWhile_idempotent, ← skipBlank, afterWord?_eq_some_iff] at hafter
        obtain ⟨word, hsplit, same, ends⟩ := hafter
        exact ⟨word, hsplit, .null same ends⟩

theorem literal_complete {gap text rest : List Char} {v : Value} (blanks : Blanks gap) (h : Literal text v rest)
    (unquoted : rest.head? ≠ some '\'') : literal (gap ++ (text ++ rest)) = .ok (v, rest) := by
  have hvisible := h.visible.skipBlank_append rest
  have hskip : skipBlank (gap ++ (text ++ rest)) = text ++ rest := (skipBlank_append blanks _).trans hvisible
  cases h with
  | text s =>
    rw [literal_quote s.toList unquoted hskip, String.ofList_toList]
  | null same ends =>
    have hafter : afterWord? "NULL" (skipBlank (text ++ rest)) = some rest := by
      rw [hvisible]
      exact afterWord?_eq_some_iff.2 ⟨text, rfl, same, ends⟩
    obtain ⟨c, tail, rfl, hc⟩ := exists_of_null same
    rw [literal_of_other, hskip, ok_bind_run (eatWord_hit hafter)]
    · rfl
    · rw [hskip]
      rcases hc with rfl | rfl <;> simp
    · rw [hskip]
      rcases hc with rfl | rfl
      · exact (by decide : ¬('n' = '-' || Decimal.isDigit 'n'))
      · exact (by decide : ¬('N' = '-' || Decimal.isDigit 'N'))
  | number longest number =>
    obtain ⟨htake, hdrop⟩ := takeWhile_append longest.chars longest.longest
    have starts : StartsNumber (text ++ rest) := by
      have hstarts := longest.starts
      cases text with
      | nil => cases hstarts
      | cons c tail => exact hstarts
    rw [literal_of_start (hskip.symm ▸ starts), hskip]
    exact number_eq_ok_iff.2 ⟨htake.symm ▸ number, hdrop⟩

/-- A reader of items that takes what the grammar of the items says, and leaves the rest. It is told where an
item may end, and how many characters there can be. -/
structure Reads (item : Reader α) (Item : List Char → α → List Char → Prop) (Ends : List Char → Prop)
    (most : Nat) : Prop where
  sound : ∀ {cs rest a}, cs.length < most → item cs = .ok (a, rest) →
    ∃ gap text, Blanks gap ∧ cs = gap ++ (text ++ rest) ∧ Item text a rest
  complete : ∀ {gap text rest a}, Blanks gap → Item text a rest → Ends rest →
    (gap ++ (text ++ rest)).length < most → item (gap ++ (text ++ rest)) = .ok (a, rest)
  visible : ∀ {text rest a}, Item text a rest → Visible text

/-- No literal is continued by white space, a comma or a bracket. -/
theorem reads_literal (most : Nat) : Reads literal Literal (fun rest => rest.head? ≠ some '\'') most where
  sound _ h := literal_sound h
  complete blanks h unquoted _ := literal_complete blanks h unquoted
  visible h := h.visible

variable {item : Reader α} {Item : List Char → α → List Char → Prop} {Ends : List Char → Prop} {most : Nat}

theorem Visible.length_pos {cs : List Char} (h : Visible cs) : 0 < cs.length := by
  obtain ⟨c, tail, rfl, -⟩ := h
  exact Nat.succ_pos _

/-- Each item takes a character. -/
theorem length_le_of_items (h : Reads item Item Ends most) {text rest : List Char} {as : List α}
    (items : Items Item text as rest) : as.length ≤ text.length := by
  induction items with
  | one _ item =>
    have hpos := (h.visible item).length_pos
    simp only [List.length_append, List.length_singleton]
    omega
  | more _ item _ _ ih =>
    simp only [List.length_append, List.length_cons]
    omega

theorem Reads.separated_sound (h : Reads item Item Ends most) {count : Nat} {cs rest : List Char} {as : List α}
    (hcount : cs.length < count) (hmost : cs.length < most) (hread : separated item count cs = .ok (as, rest)) :
    ∃ text gap, Blanks gap ∧ cs = text ++ (gap ++ rest) ∧ Items Item text as (gap ++ rest) := by
  induction count generalizing cs as with
  | zero => exact absurd hcount (Nat.not_lt_zero _)
  | succ count ih =>
    rw [separated, bind_run_eq_ok] at hread
    obtain ⟨a, behind, hfirst, hread⟩ := hread
    obtain ⟨gap, text, blanks, rfl, hitem⟩ := h.sound hmost hfirst
    obtain ⟨taken, mid, heat, hread⟩ := bind_run_eq_ok.1 hread
    obtain ⟨before, blanks', hbehind⟩ := exists_gap behind
    rcases eat_eq_ok heat with ⟨rfl, hcomma⟩ | ⟨rfl, rfl⟩
    · rw [if_pos rfl, bind_run_eq_ok] at hread
      obtain ⟨others, last, hothers, hread⟩ := hread
      obtain ⟨rfl, rfl⟩ := pure_run_eq_ok.1 hread
      rw [hcomma] at hbehind
      subst hbehind
      have hshort : mid.length < (gap ++ (text ++ (before ++ ',' :: mid))).length := by
        simp only [List.length_append, List.length_cons]
        omega
      obtain ⟨tail, gap', blanks'', rfl, hitems⟩ := ih (by omega) (by omega) hothers
      refine ⟨gap ++ (text ++ (before ++ ',' :: tail)), gap', blanks'', ?_, .more blanks hitem blanks' hitems⟩
      simp only [List.append_assoc, List.cons_append]
    · obtain ⟨rfl, rfl⟩ := pure_run_eq_ok.1 hread
      rw [hbehind] at hitem
      refine ⟨gap ++ text, before, blanks', ?_, .one blanks hitem⟩
      rw [List.append_assoc, ← hbehind]

theorem Reads.separated_complete (h : Reads item Item Ends most)
    (comma : ∀ {before tail}, Blanks before → Ends (before ++ ',' :: tail)) {text rest : List Char} {as : List α}
    (items : Items Item text as rest) (ends : Ends rest) (hrest : (skipBlank rest).head? ≠ some ',')
    (hmost : (text ++ rest).length < most) {count : Nat} (hcount : as.length ≤ count) :
    separated item count (text ++ rest) = .ok (as, skipBlank rest) := by
  induction items generalizing count with
  | @one gap text rest a blanks hitem =>
    obtain ⟨count, rfl⟩ := Nat.exists_eq_add_of_le' hcount
    rw [List.append_assoc] at hmost ⊢
    rw [List.length_singleton, separated, ok_bind_run (h.complete blanks hitem ends hmost),
      ok_bind_run (eat_miss hrest)]
    rfl
  | @more gap text before others rest a as blanks hitem blanks' _ ih =>
    obtain ⟨count, rfl⟩ : ∃ n, count = n + 1 := by
      rw [List.length_cons] at hcount
      exact Nat.exists_eq_add_one.2 (by omega)
    simp only [List.append_assoc, List.cons_append] at hmost ⊢
    have hcomma : eat ',' (before ++ ',' :: (others ++ rest)) = .ok (true, others ++ rest) :=
      eat_hit ((skipBlank_append blanks' _).trans (skipBlank_cons (by decide) _))
    have hshort : (others ++ rest).length < most := by
      simp only [List.length_append, List.length_cons] at hmost ⊢
      omega
    rw [separated, ok_bind_run (h.complete blanks hitem (comma blanks') hmost), ok_bind_run hcomma, if_pos rfl,
      ok_bind_run (ih ends hrest hshort (Nat.le_of_succ_le_succ hcount))]
    rfl

theorem bracketed_sound (h : Reads item Item Ends most) {cs rest : List Char} {as : List α}
    (hmost : cs.length < most) (hread : bracketed item most cs = .ok (as, rest)) :
    ∃ gap text, Blanks gap ∧ cs = gap ++ (text ++ rest) ∧ Bracketed Item text as rest := by
  rw [bracketed, bind_run_eq_ok] at hread
  obtain ⟨_, inner, hopen, hinner⟩ := hread
  obtain ⟨gap, blanks, rfl⟩ := exists_of_expect hopen
  obtain ⟨found, behind, hitems, hbehind⟩ := bind_run_eq_ok.1 hinner
  have hshort : inner.length < most := by
    simp only [List.length_append, List.length_cons] at hmost
    omega
  obtain ⟨text, gap', blanks', rfl, items⟩ := h.separated_sound hshort hshort hitems
  obtain ⟨_, last, hclose, hdone⟩ := bind_run_eq_ok.1 hbehind
  obtain ⟨rfl, rfl⟩ := pure_run_eq_ok.1 hdone
  obtain ⟨close, blanks'', rfl⟩ := exists_of_expect hclose
  rw [← List.append_assoc gap' close] at items
  refine ⟨gap, _, blanks, ?_, .list items (blanks'.append blanks'')⟩
  simp only [List.append_assoc, List.cons_append, List.nil_append]

/-- Lists of items between brackets are items themselves. -/
theorem Reads.bracketed (h : Reads item Item Ends most)
    (ends : ∀ {before tail c}, Blanks before → c = ',' ∨ c = ')' → Ends (before ++ c :: tail)) :
    Reads (bracketed item most) (Bracketed Item) (fun _ => True) most where
  sound hmost hread := bracketed_sound h hmost hread
  complete := by
    intro gap text rest as blanks hlist _ hmost
    cases hlist with
    | @list text close _ _ items blanks' =>
      simp only [List.append_assoc, List.cons_append, List.nil_append] at hmost ⊢
      have hopen : skipBlank (gap ++ '(' :: (text ++ (close ++ ')' :: rest))) =
          '(' :: (text ++ (close ++ ')' :: rest)) :=
        (skipBlank_append blanks _).trans (skipBlank_cons (by decide) _)
      have hclose : skipBlank (close ++ ')' :: rest) = ')' :: rest :=
        (skipBlank_append blanks' _).trans (skipBlank_cons (by decide) _)
      have hcount : as.length ≤ most := by
        have := length_le_of_items h items
        simp only [List.length_append, List.length_cons] at hmost
        omega
      have hshort : (text ++ (close ++ ')' :: rest)).length < most := by
        simp only [List.length_append, List.length_cons] at hmost ⊢
        omega
      have hitems := h.separated_complete (fun blanks => ends blanks (.inl rfl)) items
        (ends blanks' (.inr rfl)) (by rw [hclose]; simp) hshort hcount
      rw [Reader.bracketed, ok_bind_run (expect_hit hopen), ok_bind_run hitems, hclose,
        ok_bind_run (expect_hit (skipBlank_cons (by decide) rest))]
      rfl
  visible := by
    intro text rest as hlist
    cases hlist with
    | list items blanks => exact ⟨'(', _, rfl, by decide⟩

theorem ends_of_blanks {before tail : List Char} {c : Char} (blanks : Blanks before) (hc : c = ',' ∨ c = ')') :
    (before ++ c :: tail).head? ≠ some '\'' := by
  cases before with
  | nil => rcases hc with rfl | rfl <;> simp
  | cons d before =>
    rw [List.cons_append, List.head?_cons, Ne, Option.some_inj]
    rintro rfl
    exact absurd (blanks _ List.mem_cons_self) (by decide)

theorem reads_tuple (most : Nat) : Reads (tuple most) (Bracketed Literal) (fun _ => True) most :=
  (reads_literal most).bracketed ends_of_blanks

theorem finish_eq_ok_iff {what : Missing} {cs rest : List Char} {u : Unit} :
    finish what cs = .ok (u, rest) ↔ skipBlank cs = [] ∧ rest = [] := by
  rw [finish, ok_bind_run (blanks_run cs), get_bind_run]
  cases skipBlank cs with
  | nil => exact pure_run_eq_ok.trans (by simp [eq_comm])
  | cons c tail =>
    constructor
    · intro h
      cases h
    · rintro ⟨h, -⟩
      cases h

theorem run_eq_ok_iff {r : Nat → Reader α} {cs : List Char} {a : α} :
    Reader.run r cs = .ok a ↔ ∃ rest, r (cs.length + 1) cs = .ok (a, rest) := by
  unfold Reader.run
  rcases r (cs.length + 1) cs with e | ⟨b, rest⟩
  · simp
  · simp [eq_comm]

theorem skipBlank_eq_nil {gap : List Char} (blanks : Blanks gap) : skipBlank gap = [] :=
  List.dropWhile_eq_nil_iff.2 blanks

end Reader

theorem readValues_sound {s : String} {rows : List (List Value)} (h : readValues s = .ok rows) :
    ValueList s.toList rows := by
  have htuple := reads_tuple (s.toList.length + 1)
  obtain ⟨rest, hread⟩ := run_eq_ok_iff.1 h
  obtain ⟨found, mid, htuples, hmid⟩ := bind_run_eq_ok.1 hread
  obtain ⟨_, last, hfinish, hlast⟩ := bind_run_eq_ok.1 hmid
  obtain ⟨rfl, -⟩ := pure_run_eq_ok.1 hlast
  obtain ⟨text, gap, blanks, hcs, items⟩ :=
    htuple.separated_sound (Nat.lt_succ_self _) (Nat.lt_succ_self _) htuples
  obtain ⟨gap', blanks', hgap⟩ := exists_gap mid
  rw [(finish_eq_ok_iff.1 hfinish).1, List.append_nil] at hgap
  subst hgap
  rw [hcs]
  exact .tuples items (blanks.append blanks')

theorem readValues_complete {s : String} {rows : List (List Value)} (h : ValueList s.toList rows) :
    readValues s = .ok rows := by
  have htuple := reads_tuple (s.toList.length + 1)
  refine run_eq_ok_iff.2 ⟨[], ?_⟩
  generalize s.toList = cs at h htuple ⊢
  cases h with
  | @tuples text gap _ items blanks =>
    have hskip := skipBlank_eq_nil blanks
    have hcount : rows.length ≤ (text ++ gap).length + 1 := by
      have := length_le_of_items htuple items
      rw [List.length_append]
      omega
    have htuples := htuple.separated_complete (fun _ => trivial) items trivial (by rw [hskip]; simp)
      (Nat.lt_succ_self _) hcount
    rw [hskip] at htuples
    rw [tuples, ok_bind_run htuples]
    exact bind_run_eq_ok.2 ⟨⟨⟩, [], finish_eq_ok_iff.2 ⟨rfl, rfl⟩, rfl⟩

/-- No sentence stands for two lists. -/
theorem Grammar.ValueList.unique {s : String} {rows rows' : List (List Value)} (h : ValueList s.toList rows)
    (h' : ValueList s.toList rows') : rows = rows' :=
  Except.ok.inj ((readValues_complete h).symm.trans (readValues_complete h'))

/-- A text is read exactly if it is a sentence of the grammar, as what the sentence stands for. -/
theorem readValues_eq_ok_iff (s : String) (rows : List (List Value)) :
    readValues s = .ok rows ↔ ValueList s.toList rows :=
  ⟨readValues_sound, readValues_complete⟩

end ReadingBench.Sql

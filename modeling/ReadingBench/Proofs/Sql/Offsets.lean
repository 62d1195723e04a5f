import ReadingBench.Proofs.Sql.Cursor

namespace ReadingBench.Sql

open Text

namespace Cursor

variable {α β : Type} {rounds : Nat} {done rest : List Char}

/-- A value with the next offset, or a failure, if there is an outcome. -/
abbrev Result (α : Type) := Option (Except Failure (α × Nat))

/-- The outcome behind `done`, where `rest` is left. -/
def outcome (rounds : Nat) (c : Cursor α) (done rest : List Char) : Result α :=
  c ⟨done ++ rest, rounds⟩ (byteLength done)

/-- The outcome where `a` is returned behind `done`. -/
def arrived (a : α) (done : List Char) : Result α := some (.ok (a, byteLength done))

theorem outcome_pure (a : α) : outcome rounds (pure a) done rest = arrived a done := rfl

theorem bind_outcome (c : Cursor α) (f : α → Cursor β) : outcome rounds (c >>= f) done rest =
    (outcome rounds c done rest).bind (ExceptT.bindCont fun (a, next) => f a ⟨done ++ rest, rounds⟩ next) := rfl

theorem step_bind {c : Cursor α} {a : α} {taken left : List Char} (split : rest = taken ++ left)
    (h : outcome rounds c done rest = arrived a (done ++ taken)) (f : α → Cursor β) :
    outcome rounds (c >>= f) done rest = outcome rounds (f a) (done ++ taken) left := by
  rw [bind_outcome, h, split, ← List.append_assoc]
  rfl

/-- A step that takes nothing. -/
theorem kept_bind {c : Cursor α} {a : α} (h : outcome rounds c done rest = arrived a done)
    (f : α → Cursor β) : outcome rounds (c >>= f) done rest = outcome rounds (f a) done rest := by
  rw [bind_outcome, h]
  rfl

theorem outcome_get : outcome rounds get done rest = arrived (byteLength done) done := rfl

theorem outcome_read : outcome rounds read done rest = arrived ⟨done ++ rest, rounds⟩ done := rfl

theorem outcome_cut {cs before after : List Char} {n : Nat} (h : cut? cs n = some (before, after)) :
    outcome rounds (cut cs n) done rest = arrived (before, after) done := by
  rw [cut, h]
  rfl

theorem outcome_rest : outcome rounds Cursor.rest done rest = arrived rest done := by
  rw [Cursor.rest, kept_bind outcome_read, kept_bind outcome_get,
    kept_bind (outcome_cut (cut?_byteLength done rest)), outcome_pure]

theorem outcome_peek : outcome rounds peek done rest = arrived rest.head? done := by
  rw [peek, kept_bind outcome_rest, outcome_pure]

theorem outcome_atEnd : outcome rounds atEnd done rest = arrived rest.isEmpty done := by
  have hend : decide (byteLength (done ++ rest) ≤ byteLength done) = rest.isEmpty := by
    rw [Bool.eq_iff_iff, decide_eq_true_iff, List.isEmpty_iff, ← byteLength_eq_zero, byteLength_append]
    omega
  rw [atEnd, kept_bind outcome_read, kept_bind outcome_get, hend, outcome_pure]

theorem outcome_advance (taken : List Char) :
    outcome rounds (modify (· + byteLength taken)) done rest = arrived ⟨⟩ (done ++ taken) := by
  rw [arrived, byteLength_append]
  rfl

theorem outcome_bump {c : Char} : outcome rounds bump done (c :: rest) = arrived (some c) (done ++ [c]) := by
  rw [bump, kept_bind outcome_peek]
  exact step_bind List.singleton_append.symm (outcome_advance [c]) _

theorem outcome_bump_nil : outcome rounds bump done [] = arrived none done := by
  rw [bump, kept_bind outcome_peek]
  rfl

theorem bump_bind {c : Char} (f : Option Char → Cursor β) :
    outcome rounds (bump >>= f) done (c :: rest) = outcome rounds (f (some c)) (done ++ [c]) rest :=
  step_bind List.singleton_append.symm outcome_bump f

theorem outcome_skipRounds (p : Char → Bool) {count : Nat} (enough : rest.length ≤ count) :
    outcome rounds (skipRounds p (count + 1)) done rest = arrived () (done ++ rest.takeWhile p) := by
  induction rest generalizing done count with
  | nil =>
    rw [skipRounds, kept_bind outcome_peek, List.takeWhile_nil, List.append_nil]
    rfl
  | cons c rest ih =>
    obtain ⟨count, rfl⟩ := Nat.exists_eq_add_one.2 (Nat.zero_lt_of_lt enough)
    rw [skipRounds, kept_bind outcome_peek]
    by_cases hc : p c
    · have hnext : (c :: rest).head?.any p := hc
      rw [if_pos hnext, bump_bind, ih (Nat.le_of_succ_le_succ enough), List.takeWhile_cons_of_pos hc,
        List.append_assoc]
      rfl
    · have hnext : ¬(c :: rest).head?.any p := hc
      rw [if_neg hnext, List.takeWhile_cons_of_neg hc, List.append_nil]
      rfl

theorem outcome_skipWhile (p : Char → Bool) (enough : rest.length < rounds) :
    outcome rounds (skipWhile p) done rest = arrived () (done ++ rest.takeWhile p) := by
  obtain ⟨count, rfl⟩ := Nat.exists_eq_add_one.2 (Nat.zero_lt_of_lt enough)
  rw [skipWhile, kept_bind outcome_read]
  exact outcome_skipRounds p (Nat.le_of_lt_succ enough)

theorem skipWhile_bind (p : Char → Bool) (enough : rest.length < rounds) (f : Unit → Cursor β) :
    outcome rounds (skipWhile p >>= f) done rest =
      outcome rounds (f ()) (done ++ rest.takeWhile p) (rest.dropWhile p) :=
  step_bind List.takeWhile_append_dropWhile.symm (outcome_skipWhile p enough) f

theorem blanks_bind (enough : rest.length < rounds) (f : Unit → Cursor β) :
    outcome rounds (blanks >>= f) done rest =
      outcome rounds (f ()) (done ++ rest.takeWhile isBlank) (skipBlank rest) :=
  skipWhile_bind isBlank enough f

theorem outcome_between (taken : List Char) :
    outcome rounds (between (byteLength done) (byteLength (done ++ taken))) (done ++ taken) rest =
      arrived taken (done ++ taken) := by
  rw [between, kept_bind outcome_read, kept_bind (outcome_cut (cut?_byteLength (done ++ taken) rest)),
    kept_bind (outcome_cut (cut?_byteLength done taken)), outcome_pure]

/-- A minus sign is a number character: a number is read from the longest run of these. -/
theorem number_outcome (enough : rest.length < rounds) : outcome rounds number done rest =
    outcome rounds (numeral (rest.takeWhile Reader.isNumberChar)) (done ++ rest.takeWhile Reader.isNumberChar)
      (rest.dropWhile Reader.isNumberChar) := by
  rw [number, kept_bind outcome_get, kept_bind outcome_peek]
  by_cases minus : rest.head? = some '-'
  · obtain ⟨tail, rfl⟩ := List.head?_eq_some_iff.1 minus
    have hminus : Reader.isNumberChar '-' := by decide
    rw [if_pos minus, bump_bind, skipWhile_bind _ (Nat.lt_of_succ_lt enough), kept_bind outcome_get,
      List.takeWhile_cons_of_pos hminus, List.dropWhile_cons_of_pos hminus, List.append_assoc,
      List.singleton_append, kept_bind (outcome_between _)]
  · rw [if_neg minus, skipWhile_bind _ enough, kept_bind outcome_get, kept_bind (outcome_between _)]

/-- The outcome of a cursor behind `done` and that of a reader, where `rest` is left: both take the same, or both
stop at the same place. -/
inductive Alike (done rest : List Char) : Result α → Except Stop (α × List Char) → Prop where
  | took {taken left : List Char} (split : rest = taken ++ left) (a : α) :
      Alike done rest (arrived a (done ++ taken)) (.ok (a, left))
  | missing {taken left : List Char} (split : rest = taken ++ left) (what : Missing) :
      Alike done rest (some (.error (.stopped (.missing what (byteLength (done ++ taken))))))
        (.error (.missing what left))
  | badNumber (text : List Char) :
      Alike done rest (some (.error (.stopped (.badNumber (String.ofList text))))) (.error (.badNumber text))

namespace Alike

theorem kept (a : α) : Alike done rest (arrived a done) (.ok (a, rest)) := by
  have h : Alike done rest (arrived a (done ++ [])) (.ok (a, rest)) := .took (List.nil_append rest).symm a
  rwa [List.append_nil] at h

theorem stopped (what : Missing) : Alike done rest (outcome rounds (stop what : Cursor α) done rest)
    (.error (.missing what rest)) := by
  have h : Alike done rest (some (.error (.stopped (.missing what (byteLength (done ++ []))))) : Result α)
      (.error (.missing what rest)) := .missing (List.nil_append rest).symm what
  rwa [List.append_nil] at h

theorem further {taken left : List Char} (split : rest = taken ++ left) {x : Result α}
    {y : Except Stop (α × List Char)} (h : Alike (done ++ taken) left x y) : Alike done rest x y := by
  cases h with
  | took split' a =>
    rw [List.append_assoc]
    exact .took (by rw [split, split', List.append_assoc]) a
  | missing split' what =>
    rw [List.append_assoc]
    exact .missing (by rw [split, split', List.append_assoc]) what
  | badNumber text => exact .badNumber text

theorem behind {c : Char} {x : Result α} {y : Except Stop (α × List Char)} (h : Alike (done ++ [c]) rest x y) :
    Alike done (c :: rest) x y := h.further List.singleton_append.symm

theorem bind {c : Cursor α} {r : Reader α} {f : α → Cursor β} {g : α → Reader β}
    (h : Alike done rest (outcome rounds c done rest) (r rest))
    (next : ∀ a taken left, rest = taken ++ left → r rest = .ok (a, left) →
      Alike (done ++ taken) left (outcome rounds (f a) (done ++ taken) left) (g a left)) :
    Alike done rest (outcome rounds (c >>= f) done rest) ((r >>= g) rest) := by
  generalize hc : outcome rounds c done rest = x at h
  generalize hr : r rest = y at h next
  cases h with
  | took split a =>
    rw [step_bind split hc, Reader.ok_bind_run hr]
    exact (next a _ _ split rfl).further split
  | missing split what =>
    rw [bind_outcome, hc, Reader.bind_run, hr]
    exact .missing split what
  | badNumber text =>
    rw [bind_outcome, hc, Reader.bind_run, hr]
    exact .badNumber text

end Alike

/-- Alike wherever fewer than `most` characters are left, if loops may go round so often. -/
def Mirrors (most : Nat) (c : Cursor α) (r : Reader α) : Prop :=
  ∀ ⦃rounds : Nat⦄, most ≤ rounds → ∀ ⦃done rest : List Char⦄, rest.length < most →
    Alike done rest (outcome rounds c done rest) (r rest)

namespace Mirrors

variable {most : Nat}

theorem pure (a : α) : Mirrors most (Pure.pure a) (Pure.pure a) := fun _ _ _ _ _ => .kept a

theorem stop (what : Missing) : Mirrors most (Cursor.stop what : Cursor α) (Reader.stop what) :=
  fun _ _ _ _ _ => .stopped what

theorem bind {c : Cursor α} {r : Reader α} {f : α → Cursor β} {g : α → Reader β} (h : Mirrors most c r)
    (next : ∀ a, Mirrors most (f a) (g a)) : Mirrors most (c >>= f) (r >>= g) := by
  intro rounds hrounds done rest hmost
  refine (h hrounds hmost).bind fun a taken left split _ => next a hrounds ?_
  have hlength := congrArg List.length split
  rw [List.length_append] at hlength
  omega

theorem blanks : Mirrors most Cursor.blanks Reader.blanks := by
  intro rounds hrounds done rest hmost
  rw [Cursor.blanks, outcome_skipWhile isBlank (hmost.trans_le hrounds), Reader.blanks_run]
  exact .took List.takeWhile_append_dropWhile.symm ()

theorem eat (c : Char) : Mirrors most (Cursor.eat c) (Reader.eat c) := by
  refine blanks.bind fun _ rounds _ done rest _ => ?_
  rw [kept_bind outcome_peek, Reader.get_bind_run]
  cases rest with
  | nil => exact .kept false
  | cons d rest =>
    by_cases hd : d = c
    · have hnext : (d :: rest).head? = some c := congrArg some hd
      dsimp only
      rw [if_pos hnext, if_pos hd, bump_bind, Reader.set_bind_run]
      exact (Alike.kept true).behind
    · have hnext : (d :: rest).head? ≠ some c := fun h => hd (Option.some.inj h)
      dsimp only
      rw [if_neg hnext, if_neg hd]
      exact .kept false

theorem expect (c : Char) : Mirrors most (Cursor.expect c) (Reader.expect c) := by
  refine (eat c).bind fun found => ?_
  cases found with
  | true => exact .pure ()
  | false => exact .stop (.mark c)

theorem eatWord {word : String} (capitals : word.toList.map Char.toUpper = word.toList) :
    Mirrors most (Cursor.eatWord word) (Reader.eatWord word) := by
  refine blanks.bind fun _ rounds _ done rest _ => ?_
  rw [kept_bind outcome_rest, Reader.get_bind_run]
  cases hafter : Reader.afterWord? word rest with
  | some tail =>
    obtain ⟨head, rfl, same, ends⟩ := Reader.afterWord?_eq_some_iff.1 hafter
    have hsize : byteLength head = word.utf8ByteSize := by
      rw [← byteLength_map_toUpper, same, byteLength_toList]
    have hcut : cut? (head ++ tail) word.utf8ByteSize = some (head, tail) := hsize ▸ cut?_byteLength head tail
    dsimp only
    rw [hcut]
    dsimp only
    rw [if_pos (same.trans capitals.symm), kept_bind (outcome_cut hcut)]
    dsimp only
    rw [if_neg ends, ← hsize, step_bind rfl (outcome_advance head), Reader.set_bind_run]
    exact .took rfl true
  | none =>
    dsimp only
    -- Where the keyword's number of bytes ends inside a character, these bytes are no word.
    cases hcut : cut? rest word.utf8ByteSize with
    | none => exact .kept false
    | some parts =>
      obtain ⟨head, tail⟩ := parts
      obtain ⟨rfl, hsize⟩ := cut?_eq_some hcut
      dsimp only
      by_cases same : head.map Char.toUpper = word.toList.map Char.toUpper
      · have continued : tail.head?.any isWordChar := by
          by_contra ends
          have hfound := Reader.afterWord?_eq_some_iff.2 ⟨head, rfl, same.trans capitals, ends⟩
          rw [hafter] at hfound
          cases hfound
        rw [if_pos same, kept_bind (outcome_cut hcut)]
        dsimp only
        rw [if_pos continued]
        exact .kept false
      · rw [if_neg same]
        exact .kept false

theorem expectWord {word : String} (capitals : word.toList.map Char.toUpper = word.toList) :
    Mirrors most (Cursor.expectWord word) (Reader.expectWord word) := by
  refine (eatWord capitals).bind fun found => ?_
  cases found with
  | true => exact .pure ()
  | false => exact .stop (.keyword word)

section Body

variable {mark : Char} {unclosed : Missing} {count : Nat} (before : String)

theorem bodyRounds_nil : outcome rounds (bodyRounds mark unclosed (count + 1) before) done [] =
    outcome rounds (Cursor.stop unclosed : Cursor String) done [] := by
  rw [bodyRounds, kept_bind outcome_bump_nil]

theorem bodyRounds_other {c : Char} (other : c ≠ mark) :
    outcome rounds (bodyRounds mark unclosed (count + 1) before) done (c :: rest) =
      outcome rounds (bodyRounds mark unclosed count (before.push c)) (done ++ [c]) rest := by
  rw [bodyRounds, bump_bind]
  exact congrArg (outcome rounds · _ _) (if_neg other)

theorem bodyRounds_close (single : rest.head? ≠ some mark) :
    outcome rounds (bodyRounds mark unclosed (count + 1) before) done (mark :: rest) =
      arrived before (done ++ [mark]) := by
  rw [bodyRounds, bump_bind]
  dsimp only
  rw [if_pos rfl, kept_bind outcome_peek, if_neg single, outcome_pure]

theorem bodyRounds_double :
    outcome rounds (bodyRounds mark unclosed (count + 1) before) done (mark :: mark :: rest) =
      outcome rounds (bodyRounds mark unclosed count (before.push mark)) (done ++ [mark, mark]) rest := by
  have hnext : (mark :: rest).head? = some mark := rfl
  rw [bodyRounds, bump_bind]
  dsimp only
  rw [if_pos rfl, kept_bind outcome_peek, if_pos hnext, bump_bind, List.append_assoc]
  rfl

/-- The outcome of a reader that has read `before`, from what is found behind that. -/
def bodyOutcome (unclosed : Missing) (before : String) :
    Option (List Char × List Char) → Except Stop (String × List Char)
  | some (text, left) => .ok (before ++ String.ofList text, left)
  | none => .error (.missing unclosed [])

theorem bodyOutcome_close (left : List Char) :
    bodyOutcome unclosed before (some ([], left)) = .ok (before, left) := by
  rw [bodyOutcome, String.ofList_nil, String.append_empty]

theorem bodyOutcome_push (c : Char) (found : Option (List Char × List Char)) :
    bodyOutcome unclosed (before.push c) found =
      bodyOutcome unclosed before (found.map fun (text, left) => (c :: text, left)) := by
  cases found with
  | none => rfl
  | some found =>
    have htext : before.push c ++ String.ofList found.1 = before ++ String.ofList (c :: found.1) := by
      rw [← String.toList_inj]
      simp
    exact congrArg (fun text => Except.ok (text, found.2)) htext

theorem body_run (cs : List Char) :
    Reader.body mark unclosed cs = bodyOutcome unclosed "" (readBody? mark cs) := by
  rw [Reader.body, Reader.get_bind_run]
  cases readBody? mark cs with
  | none => rfl
  | some found =>
    rw [bodyOutcome, String.empty_append]
    rfl

theorem alike_bodyRounds (enough : rest.length ≤ count) :
    Alike done rest (outcome rounds (bodyRounds mark unclosed (count + 1) before) done rest)
      (bodyOutcome unclosed before (readBody? mark rest)) := by
  fun_induction readBody? mark rest generalizing done before count with
  | case1 =>
    rw [bodyRounds_nil]
    exact .stopped unclosed
  | case2 =>
    rw [bodyRounds_close _ (by simp), bodyOutcome_close]
    exact (Alike.kept before).behind
  | case3 c other =>
    obtain ⟨count, rfl⟩ := Nat.exists_eq_add_one.2 (Nat.zero_lt_of_lt enough)
    rw [bodyRounds_other _ other, bodyRounds_nil]
    exact (Alike.stopped unclosed).behind
  | case4 cs ih =>
    obtain ⟨count, rfl⟩ := Nat.exists_eq_add_one.2 (Nat.zero_lt_of_lt enough)
    rw [bodyRounds_double, ← bodyOutcome_push]
    have hle : cs.length ≤ count := Nat.le_of_succ_le (Nat.le_of_succ_le_succ enough)
    exact (ih (before.push mark) hle).further (by rfl : _ = [mark, mark] ++ cs)
  | case5 d cs other =>
    rw [bodyRounds_close _ (by simpa using other), bodyOutcome_close]
    exact (Alike.kept before).behind
  | case6 c d cs other ih =>
    obtain ⟨count, rfl⟩ := Nat.exists_eq_add_one.2 (Nat.zero_lt_of_lt enough)
    rw [bodyRounds_other _ other, ← bodyOutcome_push]
    exact (ih (before.push c) (Nat.le_of_succ_le_succ enough)).behind

end Body

theorem body (mark : Char) (unclosed : Missing) :
    Mirrors most (Cursor.body mark unclosed) (Reader.body mark unclosed) := by
  intro rounds hrounds done rest hmost
  obtain ⟨count, rfl⟩ := Nat.exists_eq_add_one.2 ((Nat.zero_lt_of_lt hmost).trans_le hrounds)
  rw [Cursor.body, kept_bind outcome_read, body_run]
  exact alike_bodyRounds "" (Nat.le_of_lt_succ (hmost.trans_le hrounds))

theorem ident : Mirrors most Cursor.ident Reader.ident := by
  refine blanks.bind fun _ rounds hrounds done rest hmost => ?_
  rw [kept_bind outcome_peek, Reader.get_bind_run]
  by_cases quoted : rest.head? = some '`'
  · obtain ⟨tail, rfl⟩ := List.head?_eq_some_iff.1 quoted
    rw [if_pos quoted, bump_bind]
    exact (body '`' .identifierEnd hrounds (Nat.lt_of_succ_lt hmost)).behind
  · rw [if_neg quoted]
    split
    case h_1 tail => exact absurd rfl quoted
    case h_2 =>
      rw [kept_bind outcome_get, skipWhile_bind _ (hmost.trans_le hrounds), kept_bind outcome_get]
      have split := (List.takeWhile_append_dropWhile : rest.takeWhile isWordChar ++ _ = rest).symm
      dsimp only
      by_cases empty : rest.takeWhile isWordChar = []
      · rw [empty, List.nil_append] at split
        rw [← split, empty, List.append_nil, if_pos rfl, if_pos List.isEmpty_nil]
        exact .stopped .identifier
      · have hlength : byteLength done ≠ byteLength (done ++ rest.takeWhile isWordChar) := by
          rw [byteLength_append]
          have hpos := mt byteLength_eq_zero.1 empty
          omega
        rw [if_neg hlength, if_neg (mt List.isEmpty_iff.1 empty), kept_bind outcome_get,
          kept_bind (outcome_between _), Reader.set_bind_run, outcome_pure]
        exact .took split _

theorem tableRef : Mirrors most Cursor.tableRef Reader.tableRef := by
  refine ident.bind fun first rounds hrounds done rest hmost => ?_
  rw [kept_bind outcome_peek, Reader.get_bind_run]
  by_cases point : rest.head? = some '.'
  · obtain ⟨tail, rfl⟩ := List.head?_eq_some_iff.1 point
    rw [if_pos point, bump_bind]
    refine Alike.behind ?_
    exact (ident.bind fun name => pure (⟨some first, name⟩ : TableRef)) hrounds (Nat.lt_of_succ_lt hmost)
  · rw [if_neg point]
    split
    case h_1 tail => exact absurd rfl point
    case h_2 => exact .kept _

theorem number : Mirrors most Cursor.number Reader.number := by
  intro rounds hrounds done rest hmost
  rw [number_outcome (hmost.trans_le hrounds), numeral, Reader.number, Reader.get_bind_run,
    Reader.get_bind_run, Reader.set_bind_run]
  have split := (List.takeWhile_append_dropWhile : rest.takeWhile Reader.isNumberChar ++ _ = rest).symm
  cases Decimal.readInt64? (rest.takeWhile Reader.isNumberChar) with
  | some n => exact .took split (Value.int n)
  | none =>
    cases Decimal.readFloat? (rest.takeWhile Reader.isNumberChar) with
    | some x => exact .took split (Value.float x)
    | none => exact .badNumber _

theorem literal : Mirrors most Cursor.literal Reader.literal := by
  intro rounds hrounds done rest hmost
  have hskip : (skipBlank rest).length < most :=
    ((List.dropWhile_sublist isBlank).length_le : (skipBlank rest).length ≤ rest.length).trans_lt hmost
  have split : rest = rest.takeWhile isBlank ++ skipBlank rest := List.takeWhile_append_dropWhile.symm
  refine Alike.further split ?_
  rw [Cursor.literal, blanks_bind (hmost.trans_le hrounds), kept_bind outcome_peek]
  by_cases quoted : (skipBlank rest).head? = some '\''
  · obtain ⟨tail, htail⟩ := List.head?_eq_some_iff.1 quoted
    rw [htail, List.length_cons] at hskip
    rw [if_pos quoted, Reader.literal_of_quote htail, htail, bump_bind]
    refine Alike.behind ?_
    exact ((body '\'' .textEnd).bind fun text => pure (Value.text text)) hrounds (Nat.lt_of_succ_lt hskip)
  · rw [if_neg quoted]
    by_cases starts : (skipBlank rest).head?.any fun c => c = '-' || Decimal.isDigit c
    · rw [if_pos starts, Reader.literal_of_start starts]
      exact number hrounds hskip
    · rw [if_neg starts, Reader.literal_of_other quoted starts]
      refine ((eatWord (by decide)).bind fun found => ?_) hrounds hskip
      cases found with
      | true => exact .pure Value.null
      | false => exact .stop .literal

theorem alike_itemRounds {c : Cursor α} {r : Reader α} (h : Mirrors most c r) (hrounds : most ≤ rounds)
    {count bound : Nat} (hbound : count ≤ bound) (hmost : count ≤ most) (enough : rest.length < count) :
    Alike done rest (outcome rounds (itemRounds c bound) done rest) (Reader.separated r count rest) := by
  -- On the reader's count: an item and its comma leave fewer characters, so neither bound is ever reached.
  induction count generalizing done rest bound with
  | zero => exact absurd enough (Nat.not_lt_zero _)
  | succ count ih =>
    obtain ⟨bound, rfl⟩ := Nat.exists_eq_add_one.2 (Nat.zero_lt_of_lt hbound)
    rw [itemRounds, Reader.separated]
    refine (h hrounds (enough.trans_le hmost)).bind fun first taken left hsplit _ => ?_
    have hleft : left.length ≤ rest.length := by simp [hsplit]
    have hcomma : Mirrors most (Cursor.eat ',') (Reader.eat ',') := eat ','
    refine (hcomma hrounds (by omega)).bind fun found taken' left' hsplit' hfound => ?_
    cases found with
    | false => exact .kept [first]
    | true =>
      have hskip : skipBlank left = ',' :: left' := by
        rcases Reader.eat_eq_ok hfound with ⟨-, h⟩ | ⟨h, -⟩
        · exact h
        · cases h
      have hshort : left'.length < left.length := by
        have hle : (skipBlank left).length ≤ left.length := (List.dropWhile_sublist isBlank).length_le
        rw [hskip, List.length_cons] at hle
        omega
      refine (ih (by omega) (by omega) (by omega)).bind fun others _ _ _ _ => ?_
      exact .kept (first :: others)

theorem items {c : Cursor α} {r : Reader α} (h : Mirrors most c r) :
    Mirrors most (Cursor.items c) (Reader.separated r most) := by
  intro rounds hrounds done rest hmost
  rw [Cursor.items, kept_bind outcome_read]
  exact alike_itemRounds h hrounds hrounds le_rfl hmost

theorem bracketed {c : Cursor α} {r : Reader α} (h : Mirrors most c r) :
    Mirrors most (Cursor.bracketed c) (Reader.bracketed r most) :=
  (expect '(').bind fun _ => (items h).bind fun all => (expect ')').bind fun _ => .pure all

theorem tuples : Mirrors most Cursor.tuples (Reader.tuples most) := items (bracketed literal)

theorem finish (what : Missing) : Mirrors most (Cursor.finish what) (Reader.finish what) := by
  refine blanks.bind fun _ rounds _ done rest _ => ?_
  rw [kept_bind outcome_atEnd, Reader.get_bind_run]
  cases rest with
  | nil => exact .kept ()
  | cons c rest => exact .stopped what

theorem values : Mirrors most Cursor.values (do
    let rows ← Reader.tuples most
    Reader.finish .endOfValues
    return rows) :=
  tuples.bind fun rows => (finish .endOfValues).bind fun _ => .pure rows

/-- White space that was skipped is not there again. -/
theorem blanks_eat (c : Char) (f : Bool → Reader α) :
    (Reader.blanks >>= fun _ => Reader.eat c >>= f) = Reader.eat c >>= f := by
  funext cs
  have hagain : Reader.eat c (skipBlank cs) = Reader.eat c cs := by
    rw [Reader.eat, Reader.ok_bind_run (Reader.blanks_run _), Reader.ok_bind_run (Reader.blanks_run _), skipBlank,
      skipBlank, List.dropWhile_idempotent]
  rw [Reader.ok_bind_run (Reader.blanks_run cs), Reader.bind_run, hagain, ← Reader.bind_run]

theorem insertText : Mirrors most Cursor.insertText (InsertText.reader most) := by
  refine (expectWord (by decide)).bind fun _ => ?_
  refine (eatWord (by decide)).bind fun ignore => ?_
  refine (expectWord (by decide)).bind fun _ => ?_
  refine tableRef.bind fun table => ?_
  refine (bracketed ident).bind fun columns => ?_
  refine (expectWord (by decide)).bind fun _ => ?_
  refine tuples.bind fun rows => ?_
  rw [← blanks_eat]
  exact blanks.bind fun _ => (eat ';').bind fun _ => (finish .endOfInsert).bind fun _ => .pure _

end Mirrors

/-- How a cursor and a reader come to an end on a text: alike, and an offset ends a part of the text. -/
inductive Ended (s : String) : Result α → Except SyntaxError α → Prop where
  | read (a : α) (next : Nat) : Ended s (some (.ok (a, next))) (.ok a)
  | missing {before after : String} (split : s = before ++ after) (what : Missing) :
      Ended s (some (.error (.stopped (.missing what before.utf8ByteSize))))
        (.error (.missing what before.utf8ByteSize))
  | other {e : SyntaxError} (other : ∀ what k, e ≠ .missing what k) :
      Ended s (some (.error (.stopped e))) (.error e)

section Texts

variable {s : String} (enough : s.length < rounds)

include enough

theorem ended {c : Cursor α} {r : Nat → Reader α} (h : ∀ most, Mirrors most c (r most)) :
    Ended s (outcome rounds c [] s.toList) (Reader.run r s.toList) := by
  rw [← String.length_toList] at enough
  have halike : Alike [] s.toList (outcome rounds c [] s.toList) (r (s.toList.length + 1) s.toList) :=
    h _ enough (Nat.lt_succ_self _)
  rw [Reader.run]
  generalize outcome rounds c [] s.toList = x, r (s.toList.length + 1) s.toList = y at halike
  cases halike with
  | took split a => exact .read a _
  | @missing taken left split what =>
    have hsplit : s = String.ofList taken ++ String.ofList left := by
      rw [← String.ofList_append, ← split, String.ofList_toList]
    have hlength : byteLength taken = (String.ofList taken).utf8ByteSize := by
      rw [← byteLength_toList, String.toList_ofList]
    have hoffset : byteLength s.toList - byteLength left = (String.ofList taken).utf8ByteSize := by
      rw [split, byteLength_append, ← hlength]
      omega
    dsimp only [Stop.toError]
    rw [hoffset, List.nil_append, hlength]
    exact .missing hsplit what
  | badNumber text => exact .other nofun

theorem ended_values : Ended s (outcome rounds values [] s.toList) (readValues s) :=
  ended enough fun _ => Mirrors.values

/-- The lengths of the tuples are compared behind the end: a wrong one has no offset. -/
theorem ended_insert : Ended s (outcome rounds insert [] s.toList) (InsertText.read s) := by
  have hended := ended enough fun _ => Mirrors.insertText
  rw [insert, bind_outcome, InsertText.read]
  generalize outcome rounds insertText [] s.toList = x, Reader.run InsertText.reader s.toList = y at hended
  cases hended with
  | missing split what => exact .missing split what
  | other other => exact .other other
  | read text next =>
    rw [Outcome.ok_bind, Option.bind_some, ExceptT.bindCont]
    dsimp only
    cases text.rows.find? (·.length ≠ text.columns.length) with
    | none => exact .read text next
    | some row => exact .other nofun

end Texts

theorem Ended.run_eq {s : String} {c : Cursor α} {y : Except SyntaxError α}
    (h : Ended s (outcome rounds c [] s.toList) y) : run rounds c s = some (y.mapError .stopped) := by
  have hrun : run rounds c s = (outcome rounds c [] s.toList).map fun result => result.map Prod.fst := rfl
  rw [hrun]
  generalize outcome rounds c [] s.toList = x at h
  cases h <;> rfl

theorem Ended.exists_split {s : String} {x : Result α} {what : Missing} {k : Nat}
    (h : Ended s x (.error (.missing what k))) :
    ∃ before after, s = before ++ after ∧ before.utf8ByteSize = k := by
  cases h with
  | missing split => exact ⟨_, _, split, rfl⟩
  | other other => exact absurd rfl (other what k)

end Cursor

theorem isDigit_of_mem_toString {n : Nat} {c : Char} (h : c ∈ (toString n).toList) : c.isDigit :=
  Nat.isDigit_of_mem_toDigits (by decide) le_rfl (Nat.toList_repr ▸ h)

/-- The number behind the last space of a text. -/
theorem last_number {a b : String} {m n : Nat} (h : a ++ " " ++ toString m = b ++ " " ++ toString n) :
    a = b ∧ m = n := by
  have hspan : ∀ (front : String) (k : Nat),
      (front ++ " " ++ toString k).toList.reverse.takeWhile (· ≠ ' ') = (toString k).toList.reverse := by
    intro front k
    have hspaceless : ∀ c ∈ (toString k).toList.reverse, (c ≠ ' ' : Bool) := by
      intro c hc
      refine decide_eq_true fun hspace => absurd (isDigit_of_mem_toString (List.mem_reverse.1 hc)) ?_
      rw [hspace]
      decide
    rw [String.toList_append, List.reverse_append, String.toList_append, List.reverse_append]
    exact (takeWhile_append hspaceless (by simp)).1
  have hsame : toString m = toString n := by
    rw [← String.toList_inj, ← List.reverse_inj, ← hspan a, h, hspan b]
  refine ⟨?_, Nat.repr_inj.1 hsame⟩
  rw [hsame] at h
  exact (String.append_left_inj _).1 ((String.append_left_inj _).1 h)

theorem append_spaced (a b c : String) : a ++ (b ++ " ") ++ c = a ++ b ++ " " ++ c :=
  congrArg (· ++ c) String.append_assoc.symm

theorem getLast?_toList_append {a b : String} (h : b.toList ≠ []) :
    (a ++ b).toList.getLast? = b.toList.getLast? := by
  rw [String.toList_append, List.getLast?_append_of_ne_nil _ h]

namespace SyntaxError

/-- No other message ends in an offset. -/
theorem eq_missing_of_message {e : SyntaxError} {text : String} {k : Nat}
    (h : e.message = text ++ "at offset " ++ toString k) : ∃ what, e = missing what k := by
  cases e with
  | missing what offset =>
    have hmessage : (missing what offset).message = what.message ++ " at offset" ++ " " ++ toString offset :=
      append_spaced what.message " at offset" (toString offset)
    have hnumbers := hmessage.symm.trans (h.trans (append_spaced text "at offset" (toString k)))
    obtain ⟨-, rfl⟩ := last_number hnumbers
    exact ⟨what, rfl⟩
  | badNumber number =>
    have hmessage : (badNumber number).message = "bad numeric literal '" ++ number ++ "'" := rfl
    have hlast := congrArg (fun s => s.toList.getLast?) (hmessage.symm.trans h)
    rw [getLast?_toList_append (by decide), getLast?_toList_append (by simp)] at hlast
    exact absurd (isDigit_of_mem_toString (List.mem_of_getLast? hlast.symm)) (by decide)
  | arity found expected =>
    have hmessage : (arity found expected).message =
        "tuple has " ++ toString found ++ " values, expected" ++ " " ++ toString expected :=
      append_spaced ("tuple has " ++ toString found) " values, expected" (toString expected)
    have hnumbers := hmessage.symm.trans (h.trans (append_spaced text "at offset" (toString k)))
    have hlast := congrArg (fun s => s.toList.getLast?) (last_number hnumbers).1
    rw [getLast?_toList_append (by decide), getLast?_toList_append (by decide)] at hlast
    exact absurd hlast (by decide)

end SyntaxError

/-- On every text the cursor comes to the end that the reader comes to, however far above its number of characters
the bound on its loops is: all loops end, and none of the slices is bad. Where the error names an offset, the offset
is the length of a part of the text that whole characters make up. -/
theorem reading_safe (s : String) :
    (∀ rounds, s.length < rounds →
      Cursor.run rounds Cursor.values s = some ((readValues s).mapError .stopped) ∧
      Cursor.run rounds Cursor.insert s = some ((InsertText.read s).mapError .stopped)) ∧
    ∀ e, readValues s = .error e ∨ InsertText.read s = .error e →
      ∀ (text : String) (k : Nat), e.message = text ++ "at offset " ++ toString k →
        ∃ before after, s = before ++ after ∧ before.utf8ByteSize = k ∧ k ≤ s.utf8ByteSize := by
  refine ⟨fun rounds enough => ⟨(Cursor.ended_values enough).run_eq, (Cursor.ended_insert enough).run_eq⟩,
    fun e failed text k hmessage => ?_⟩
  obtain ⟨what, rfl⟩ := SyntaxError.eq_missing_of_message hmessage
  have enough : s.length < s.length + 1 := Nat.lt_succ_self _
  have hsplit : ∃ before after, s = before ++ after ∧ before.utf8ByteSize = k := by
    rcases failed with h | h
    · exact (h ▸ Cursor.ended_values enough).exists_split
    · exact (h ▸ Cursor.ended_insert enough).exists_split
  obtain ⟨before, after, rfl, rfl⟩ := hsplit
  refine ⟨before, after, rfl, rfl, ?_⟩
  rw [String.utf8ByteSize_append]
  exact Nat.le_add_right _ _

/-- A text without a closing mark: the offset counts both bytes of the accented letter. -/
theorem reading_safe_unclosed : "('é".length < 4 ∧ readValues "('é" = .error (.missing .textEnd 4) ∧
    Cursor.run 4 Cursor.values "('é" = some (.error (.stopped (.missing .textEnd 4))) ∧
    ∃ before after, "('é" = before ++ after ∧ before.utf8ByteSize = 4 ∧ 4 ≤ "('é".utf8ByteSize :=
  have hlength : "('é".length < 4 := by decide
  have hread : readValues "('é" = .error (.missing .textEnd 4) := by rfl
  have hsafe := reading_safe "('é"
  ⟨hlength, hread, (hsafe.1 4 hlength).1.trans (by rw [hread]; rfl),
    hsafe.2 _ (.inl hread) "unterminated string literal " 4 (by decide)⟩

end ReadingBench.Sql

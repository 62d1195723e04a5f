import ReadingBench.Proofs.Store.Effect
import ReadingBench.Proofs.Store.UniqueKeys

namespace ReadingBench

namespace Sql.TableRef

/-- The same text, cut at a later point or not at all. -/
inductive Alias : TableRef → TableRef → Prop where
  | uncut (keyspace name : String) : Alias ⟨some keyspace, name⟩ ⟨none, keyspace ++ "." ++ name⟩
  | later (keyspace middle name : String) :
      Alias ⟨some keyspace, middle ++ "." ++ name⟩ ⟨some (keyspace ++ "." ++ middle), name⟩

/-- Two cuts of a text at points are at the same point, or one is later. -/
theorem point_eq_point {k n k' n' : String} (h : k ++ "." ++ n = k' ++ "." ++ n') :
    (k = k' ∧ n = n') ∨ (∃ m, k' = k ++ "." ++ m ∧ n = m ++ "." ++ n') ∨
      ∃ m, k = k' ++ "." ++ m ∧ n' = m ++ "." ++ n := by
  have hpoint : ".".toList = ['.'] := by simp
  have hchars : k.toList ++ '.' :: n.toList = k'.toList ++ '.' :: n'.toList := by
    simpa [hpoint] using congrArg String.toList h
  -- What one keyspace has more than the other starts with the point behind the shorter one.
  have hmore : ∀ {k n k' n' : String} {more : List Char}, k'.toList = k.toList ++ more →
      '.' :: n.toList = more ++ '.' :: n'.toList →
      (k = k' ∧ n = n') ∨ ∃ m, k' = k ++ "." ++ m ∧ n = m ++ "." ++ n' := by
    intro k n k' n' more hk hn
    cases more with
    | nil =>
      rw [List.append_nil] at hk
      exact .inl ⟨(String.toList_inj.1 hk).symm, String.toList_inj.1 (List.cons.inj hn).2⟩
    | cons c more =>
      obtain ⟨rfl, hbehind⟩ := List.cons.inj hn
      refine .inr ⟨String.ofList more, String.toList_inj.1 ?_, String.toList_inj.1 ?_⟩
      · simp [hk, hpoint]
      · simpa [hpoint] using hbehind
  rcases List.append_eq_append_iff.1 hchars with ⟨more, hk, hn⟩ | ⟨more, hk, hn⟩
  · exact (hmore hk hn).imp_right .inl
  · rcases hmore hk hn with ⟨rfl, rfl⟩ | hlater
    · exact .inl ⟨rfl, rfl⟩
    · exact .inr (.inr hlater)

variable {a b : TableRef}

theorem Alias.key_eq (h : Alias a b) : a.key = b.key := by
  cases h with
  | uncut => rfl
  | later => simp only [key, String.append_assoc]

/-- Two names have the same key exactly if they are the same or aliases. -/
theorem key_eq_iff : a.key = b.key ↔ a = b ∨ Alias a b ∨ Alias b a := by
  constructor
  · intro h
    obtain ⟨_ | k, n⟩ := a <;> obtain ⟨_ | k', n'⟩ := b
    · obtain rfl : n = n' := h
      exact .inl rfl
    · obtain rfl : n = k' ++ "." ++ n' := h
      exact .inr (.inr (.uncut k' n'))
    · obtain rfl : k ++ "." ++ n = n' := h
      exact .inr (.inl (.uncut k n))
    · rcases point_eq_point h with ⟨rfl, rfl⟩ | ⟨m, rfl, rfl⟩ | ⟨m, rfl, rfl⟩
      · exact .inl rfl
      · exact .inr (.inl (.later k m n'))
      · exact .inr (.inr (.later k' m n))
  · rintro (rfl | h | h)
    · rfl
    · exact h.key_eq
    · exact h.key_eq.symm

end Sql.TableRef

namespace Store

open Sql TableRef Server

namespace Operation

/-- The table that a request defines or writes to. -/
def writes? : Operation → Option TableRef
  | define spec => some spec.table
  | insert _ statement => some statement.table
  | delete _ statement => some statement.table
  | execute _ sql =>
    match Action.reading sql with
    | .ok (some statement) => some statement.table
    | _ => none
  | _ => none

theorem target?_eq (op : Operation) : op.target? = op.writes?.map (·.key) := by
  cases op with
  | execute s sql =>
    rw [target?, writes?]
    rcases Action.reading sql with e | (_ | statement) <;> rfl
  | define | openSession | close | failNext | select | insert | delete | commit => rfl

end Operation

/-- Whatever is defined as `a` and written to it, what is seen as `b` stays as it is. -/
def Separate (a b : TableRef) : Prop :=
  ∀ (server : Server) (ops : List Operation), (∀ op ∈ ops, ∀ ref ∈ op.writes?, ref = a) →
    (server.after ops).table? b = server.table? b

variable {a b : TableRef}

theorem separate_of_key_ne (h : a.key ≠ b.key) : Separate a b := by
  intro server ops writes
  refine after_getElem? fun op hop htarget => ?_
  rw [op.target?_eq] at htarget
  obtain ⟨ref, href, hkey⟩ := Option.map_eq_some_iff.1 htarget
  rw [writes op hop ref href] at hkey
  exact h hkey

/-- Defining a table makes one under all names of the same key. -/
theorem not_separate_of_key_eq (h : a.key = b.key) : ¬Separate a b := by
  intro separate
  have hstays := separate (empty still) [.define ⟨a, [], []⟩] (by simp [Operation.writes?])
  have hmade : ((empty still).define ⟨a, [], []⟩).table? b = some (.empty ⟨a, [], []⟩) := by
    rw [table?, define, ← h]
    simp
  have hnone : (empty still).table? b = none := getElem?_empty still b.key
  cases hmade.symm.trans (hstays.trans hnone)

/-- Names are separate exactly if they are different and no aliases; all servers have the same table under
aliases. -/
theorem separate_iff (a b : TableRef) :
    (Separate a b ↔ a ≠ b ∧ ¬Alias a b ∧ ¬Alias b a) ∧
      (Alias a b → ∀ server : Server, server.table? a = server.table? b) := by
  have hkey : Separate a b ↔ a.key ≠ b.key :=
    ⟨fun separate h => not_separate_of_key_eq h separate, separate_of_key_ne⟩
  refine ⟨?_, fun h server => congrArg (server.tables[·]?) h.key_eq⟩
  rw [hkey, Ne, key_eq_iff, not_or, not_or]

/-- One column and no point in the keyspace or the name. -/
def pointless : TableSpec := ⟨⟨some "a", "b"⟩, ["id"], [["id"]]⟩

/-- A point in the name. -/
def pointed : TableSpec := ⟨⟨none, "a.b"⟩, ["id"], [["id"]]⟩

/-- Defining the one table empties the other. -/
theorem not_separate_pointed : pointless.table ≠ pointed.table ∧
    (let server := (empty still).after
      [.define pointed, .insert .root { table := pointed.table, columns := ["id"], rows := [[.int 1]] }]
    server.rowCount pointed.table = 1 ∧
      (server.step (.define pointless)).rowCount pointed.table = 0) := by
  decide +kernel

end Store
end ReadingBench

import ReadingBench.Proofs.Rollup.Upsert
import ReadingBench.Proofs.Store.Indexed

namespace ReadingBench.Rollup

open Sql Store Outcome

/-- `u` is `t` after upserts of these rollups, each at some time. -/
inductive Upserted (t : Table) : List BeRead → Table → Prop where
  | nil : Upserted t [] t
  | snoc {done : List BeRead} {b : BeRead} {u v : Table} {now : Value} {applied : Applied}
      (before : Upserted t done u)
      (last : u.apply Keyspace.beRead.columns (.update Keyspace.updateColumns) (some ⟨11, now⟩) b.toRow =
        .ok (v, applied)) : Upserted t (done ++ [b]) v

theorem resolveStamp_upsert {t : Table} (hspec : t.spec = Keyspace.beRead.spec) (now : DateTime)
    (batch : List BeRead) : t.resolveStamp now (upsert batch) = .ok (some ⟨11, .dateTime now⟩) := by
  rw [Table.resolveStamp, hspec]
  rfl

namespace Upserted

variable {t u v : Table} {done batch : List BeRead}

theorem spec_eq (h : Upserted t done u) : u.spec = t.spec := by
  induction h with
  | nil => rfl
  | snoc _ last ih => exact (Table.apply_frame last).1.trans ih

theorem sound (h : Upserted t done u) (ht : t.Sound) : u.Sound := by
  induction h with
  | nil => exact ht
  | snoc _ last ih => exact Table.sound_apply ih last

theorem trans {more : List BeRead} (h : Upserted t done u) (h' : Upserted u more v) :
    Upserted t (done ++ more) v := by
  induction h' with
  | nil => rwa [List.append_nil]
  | snoc _ last ih =>
    rw [← List.append_assoc]
    exact ih.snoc last

theorem applyAll {now : Value} {affected : Nat} (h : Upserted t done u)
    (hall : u.applyAll Keyspace.beRead.columns (.update Keyspace.updateColumns) (some ⟨11, now⟩)
      (batch.map BeRead.toRow) = .ok (v, affected)) : Upserted t (done ++ batch) v := by
  induction batch generalizing done u affected with
  | nil =>
    obtain ⟨rfl, -⟩ := Prod.mk.inj (pure_eq_ok.1 hall)
    rwa [List.append_nil]
  | cons b batch ih =>
    rw [List.map_cons, Table.applyAll_cons] at hall
    obtain ⟨⟨w, applied⟩, happly, hall⟩ := bind_eq_ok.1 hall
    obtain ⟨⟨x, n⟩, hrest, hall⟩ := bind_eq_ok.1 hall
    obtain ⟨rfl, -⟩ := Prod.mk.inj (pure_eq_ok.1 hall)
    rw [List.append_cons]
    exact ih (h.snoc happly) hrest

theorem insert {now : DateTime} {affected : Nat} (h : Upserted t done u)
    (hspec : t.spec = Keyspace.beRead.spec) (hinsert : u.insert now (upsert batch) = .ok (v, affected)) :
    Upserted t (done ++ batch) v := by
  obtain ⟨stamp, hstamp, hall⟩ := Table.insert_eq_ok.1 hinsert
  rw [resolveStamp_upsert (h.spec_eq.trans hspec), Except.ok.injEq] at hstamp
  subst hstamp
  exact h.applyAll hall

end Upserted
end ReadingBench.Rollup

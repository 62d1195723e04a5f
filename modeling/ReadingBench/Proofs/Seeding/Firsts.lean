import ReadingBench.Proofs.Sql.Literal
import ReadingBench.Proofs.Store.Written

namespace ReadingBench

open Sql Store Outcome

namespace Read

/-- The user and the article. -/
def pair (r : Read) : String × String := (r.uid, r.aid)

/-- The first read of every pair, in order. -/
def firsts (reads : List Read) : List Read := reads.eraseDupsBy fun r first => r.pair == first.pair

theorem firsts_cons (r : Read) (reads : List Read) :
    firsts (r :: reads) = r :: firsts (reads.filter fun later => later.pair ≠ r.pair) := by
  rw [firsts, List.eraseDupsBy_cons, firsts]
  simp

/-- A read is the first of its pair or changes nothing. -/
theorem firsts_concat (reads : List Read) (r : Read) : firsts (reads ++ [r]) =
    if r.pair ∈ reads.map pair then firsts reads else firsts reads ++ [r] := by
  induction hlen : reads.length using Nat.strong_induction_on generalizing reads with
  | _ n ih =>
    cases reads with
    | nil => rfl
    | cons x reads =>
      have hshort : (reads.filter fun later => later.pair ≠ x.pair).length < n := by
        have := List.length_filter_le (fun later : Read => decide (later.pair ≠ x.pair)) reads
        rw [← hlen, List.length_cons]
        omega
      rw [List.cons_append, firsts_cons, firsts_cons, List.filter_append]
      by_cases hsame : r.pair = x.pair
      · simp [hsame]
      · have hfilter : [r].filter (fun later => later.pair ≠ x.pair) = [r] := by simp [hsame]
        rw [hfilter, ih _ hshort _ rfl]
        have hmem : r.pair ∈ (reads.filter fun later => later.pair ≠ x.pair).map pair ↔
            r.pair ∈ (x :: reads).map pair := by
          simp only [List.mem_map, List.mem_filter, List.mem_cons]
          constructor
          · rintro ⟨y, ⟨hy, -⟩, hpair⟩
            exact ⟨y, .inr hy, hpair⟩
          · rintro ⟨y, rfl | hy, hpair⟩
            · exact absurd hpair.symm hsame
            · exact ⟨y, ⟨hy, by simpa [hpair] using hsame⟩, hpair⟩
        simp only [hmem]
        split <;> rfl

theorem firsts_sublist (reads : List Read) : (firsts reads).Sublist reads := by
  induction reads using List.reverseRecOn with
  | nil => exact .slnil
  | append_singleton reads r ih =>
    rw [firsts_concat]
    split
    · exact ih.trans (List.sublist_append_left _ _)
    · exact ih.append (List.Sublist.refl _)

theorem mem_pairs_firsts (reads : List Read) (p : String × String) :
    p ∈ (firsts reads).map pair ↔ p ∈ reads.map pair := by
  induction reads using List.reverseRecOn with
  | nil => rfl
  | append_singleton reads r ih =>
    rw [firsts_concat]
    split
    · rename_i hmem
      rw [ih, List.map_append, List.mem_append, List.map_singleton, List.mem_singleton]
      exact ⟨.inl, fun h => h.elim (fun h => h) fun heq => heq ▸ hmem⟩
    · simp only [List.map_append, List.mem_append, ih]

/-- The row of a read that was sent as text. -/
def storedRow (r : Read) : Tuple := r.toRow.map Value.written

theorem keyOf_id (r : Read) :
    Keyspace.read.spec.keyOf r.storedRow ["id"] = .ok (some (Value.ofUInt64 r.id).literal) := by
  rw [storedRow, TableSpec.keyOf_written,
    TableSpec.keyOf_single (show Keyspace.read.spec.position "id" = .ok 0 from rfl)]
  rfl

/-- The key of a pair of texts. -/
def pairKey (p : String × String) : String :=
  "\x1f".intercalate [(Value.text p.1).literal, (Value.text p.2).literal]

theorem keyOf_pair (r : Read) :
    Keyspace.read.spec.keyOf r.storedRow ["uid", "aid"] = .ok (some (pairKey r.pair)) := by
  rw [storedRow, TableSpec.keyOf_written]
  rfl

theorem pairKey_injective : Function.Injective pairKey := by
  rintro ⟨u, a⟩ ⟨v, b⟩ h
  have hchars : ∀ u a : String, (pairKey (u, a)).toList =
      '\'' :: (Text.quotedBody '\'' u.toList ++ '\'' :: '\x1f' :: Text.quote '\'' a.toList) := by
    intro u a
    simp [pairKey, Value.literal, Value.literalChars, Text.quote, String.intercalate_cons_cons]
  have hbodies := (hchars u a).symm.trans ((congrArg String.toList h).trans (hchars v b))
  -- The first text ends where its closing mark is not doubled.
  have hmark : ∀ cs : List Char, ('\x1f' :: cs).head? ≠ some '\'' := by simp
  have hread := Text.readBody?_body '\'' u.toList (hmark (Text.quote '\'' a.toList))
  rw [(List.cons.inj hbodies).2, Text.readBody?_body '\'' v.toList (hmark _)] at hread
  obtain ⟨hfirst, hrest⟩ := Prod.mk.inj (Option.some.inj hread)
  have hsecond := Value.text_literal (congrArg String.ofList (List.cons.inj hrest).2)
  exact Prod.ext (String.toList_inj.1 hfirst).symm hsecond.symm

end Read

namespace Store.Table

/-- Where an insert finds a row, that row has a key of the tuple. -/
theorem Indexed.taken {t : Table} (ht : t.Indexed) {row : Tuple} {pos : Nat}
    (h : t.conflict row = .ok (some pos)) : ∃ key ∈ t.spec.uniqueKeys, ∃ k,
      t.spec.keyOf row key = .ok (some k) ∧ t.keyAt key pos = some k := by
  obtain ⟨p, hp, k, hk, hpos⟩ := holder_eq_some h
  obtain ⟨n, hn, rfl⟩ := List.getElem_of_mem hp
  rw [List.length_zip, lt_min_iff] at hn
  rw [List.getElem_zip] at hk hpos
  exact ⟨_, List.getElem_mem hn.1, k, hk,
    (ht.agrees n _ _ (List.getElem?_eq_getElem hn.1) (List.getElem?_eq_getElem hn.2) k pos).1 hpos⟩

end Store.Table

namespace Read

/-- The table of reads after these reads were inserted into it, with pairs dropped that it had. -/
structure Kept (reads : List Read) (t : Table) : Prop extends t.Indexed where
  spec : t.spec = Keyspace.read.spec
  rows : t.rows.toList = (firsts reads).map storedRow

variable {reads : List Read} {t u : Table} {r : Read}

theorem Kept.size (h : Kept reads t) : t.rows.size = (firsts reads).length := by
  rw [← Array.length_toList, h.rows, List.length_map]

theorem Kept.keyAt_eq_some (h : Kept reads t) {key : List String} {pos : Nat} {k : String} :
    t.keyAt key pos = some k ↔ ∃ s, (firsts reads)[pos]? = some s ∧
      Keyspace.read.spec.keyOf s.storedRow key = .ok (some k) := by
  rw [Table.keyAt_eq_some, ← Array.getElem?_toList, h.rows, h.spec, List.getElem?_map]
  simp only [Option.map_eq_some_iff]
  constructor
  · rintro ⟨row, ⟨s, hs, rfl⟩, hk⟩
    exact ⟨s, hs, hk⟩
  · rintro ⟨s, hs, hk⟩
    exact ⟨_, ⟨s, hs, rfl⟩, hk⟩

/-- A read with a new id is in the way of a stored one only by its pair. -/
theorem Kept.conflict_eq_none (h : Kept reads t) (hfree : t.conflict r.storedRow = .ok none) :
    r.pair ∉ reads.map pair := by
  intro hmem
  obtain ⟨s, hs, hpair⟩ := List.mem_map.1 ((mem_pairs_firsts reads _).2 hmem)
  obtain ⟨pos, hpos⟩ := List.getElem?_of_mem hs
  have hkey : ["uid", "aid"] ∈ t.spec.uniqueKeys := by
    rw [h.spec]
    decide
  have hk := keyOf_pair r
  rw [← h.spec] at hk
  refine h.toIndexed.free hfree hkey hk pos (h.keyAt_eq_some.2 ⟨s, hpos, ?_⟩)
  rw [keyOf_pair, hpair]

theorem Kept.conflict_eq_some (h : Kept reads t) (fresh : r.id ∉ reads.map Read.id) {pos : Nat}
    (hfound : t.conflict r.storedRow = .ok (some pos)) : r.pair ∈ reads.map pair := by
  obtain ⟨key, hkey, k, hk, hpos⟩ := h.toIndexed.taken hfound
  obtain ⟨s, hs, hks⟩ := h.keyAt_eq_some.1 hpos
  have hmem := (firsts_sublist reads).mem (List.mem_of_getElem? hs)
  have hkeys : t.spec.uniqueKeys = [["id"], ["uid", "aid"]] := by
    rw [h.spec]
    rfl
  rw [hkeys, List.mem_cons, List.mem_singleton] at hkey
  rw [h.spec] at hk
  have hsame := hk.trans hks.symm
  rcases hkey with rfl | rfl
  · rw [keyOf_id, keyOf_id, Except.ok.injEq, Option.some.injEq] at hsame
    exact absurd (List.mem_map.2 ⟨s, hmem, (Value.ofUInt64_literal hsame).symm⟩) fresh
  · rw [keyOf_pair, keyOf_pair, Except.ok.injEq, Option.some.injEq] at hsame
    exact List.mem_map.2 ⟨s, hmem, (pairKey_injective hsame).symm⟩

theorem kept_empty (ht : t.Sound) (hspec : t.spec = Keyspace.read.spec) (hrows : t.rows = #[]) :
    Kept [] t := ⟨ht.indexed hrows, hspec, by rw [hrows]; rfl⟩

/-- One tuple of an insert: the read is appended, or its pair is there. -/
theorem Kept.apply (h : Kept reads t) (fresh : r.id ∉ reads.map Read.id) {applied : Applied}
    (happly : t.apply Keyspace.read.columns .ignore none r.storedRow = .ok (u, applied)) :
    Kept (reads ++ [r]) u ∧
      (firsts (reads ++ [r])).length = (firsts reads).length + applied.affected := by
  obtain ⟨row, hrow, happly⟩ := Table.apply_eq_ok happly
  have hwidth : r.storedRow.length = t.spec.columns.length := by
    rw [h.spec]
    rfl
  have hfull : t.spec.fullRow t.spec.columns r.storedRow = .ok r.storedRow :=
    TableSpec.fullRow_self (by rw [h.spec]; decide) hwidth
  have hcolumns : t.spec.columns = Keyspace.read.columns := by
    rw [h.spec]
    rfl
  rw [hcolumns] at hfull
  obtain rfl := Except.ok.inj (hfull.symm.trans hrow)
  rcases happly with ⟨hfree, happend, rfl⟩ | ⟨pos, hpos, ⟨-, rfl, rfl⟩ | ⟨targets, htargets, -⟩⟩
  · have hnew := h.conflict_eq_none hfree
    have hfirsts : firsts (reads ++ [r]) = firsts reads ++ [r] := by rw [firsts_concat, if_neg hnew]
    have hindexed := Table.indexed_append h.toIndexed hwidth
      (fun key hkey k p hk => h.toIndexed.free hfree hkey hk p) happend
    obtain ⟨keys, -, rfl⟩ := Table.append_eq_ok.1 happend
    refine ⟨⟨hindexed, h.spec, ?_⟩, by rw [hfirsts, List.length_append]; rfl⟩
    rw [hfirsts, List.map_append, ← h.rows, Array.toList_push]
    rfl
  · have hold := h.conflict_eq_some fresh hpos
    have hfirsts : firsts (reads ++ [r]) = firsts reads := by rw [firsts_concat, if_pos hold]
    exact ⟨⟨h.toIndexed, h.spec, by rw [hfirsts, h.rows]⟩, by rw [hfirsts]; rfl⟩
  · cases htargets

/-- A batch of reads, one after the other; ids differ among all reads. -/
theorem Kept.applyAll {batch : List Read} (h : Kept reads t)
    (distinct : ((reads ++ batch).map Read.id).Nodup) {affected : Nat}
    (hall : t.applyAll Keyspace.read.columns .ignore none (batch.map storedRow) = .ok (u, affected)) :
    Kept (reads ++ batch) u ∧
      (firsts (reads ++ batch)).length = (firsts reads).length + affected := by
  induction batch generalizing reads t affected with
  | nil =>
    obtain ⟨rfl, rfl⟩ := Prod.mk.inj (pure_eq_ok.1 hall)
    rw [List.append_nil]
    exact ⟨h, rfl⟩
  | cons r batch ih =>
    rw [List.map_cons, Table.applyAll_cons] at hall
    obtain ⟨⟨v, applied⟩, hfirst, hall⟩ := bind_eq_ok.1 hall
    obtain ⟨⟨w, rest⟩, hrest, hall⟩ := bind_eq_ok.1 hall
    obtain ⟨rfl, rfl⟩ := Prod.mk.inj (pure_eq_ok.1 hall)
    have hsplit : reads ++ r :: batch = reads ++ [r] ++ batch := by simp
    rw [hsplit] at distinct ⊢
    have fresh : r.id ∉ reads.map Read.id := by
      rw [List.map_append, List.map_append] at distinct
      have hfront := (List.nodup_append.1 distinct).1
      have hapart := (List.nodup_append.1 hfront).2.2
      exact fun hmem => hapart _ hmem _ (by simp) rfl
    obtain ⟨hv, hcount⟩ := h.apply fresh hfirst
    obtain ⟨hu, hcounts⟩ := ih hv distinct hrest
    exact ⟨hu, by omega⟩

end Read
end ReadingBench

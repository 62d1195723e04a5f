import ReadingBench.Proofs.Store.Failure
import ReadingBench.Proofs.Store.Run
import ReadingBench.Seeding.Maintenance

namespace ReadingBench

open Sql Store Outcome

namespace Store

namespace Server

variable {ref : TableRef} {server mid next : Server}

/-- A table has lost some rows, if any, and the others are the same. -/
structure Trimmed (ref : TableRef) (t u : Table) (server next : Server) : Prop where
  others : SameBut ref server next
  found : next.table? ref = some u
  spec : u.spec = t.spec
  sound : u.Sound
  size : u.rows.size ≤ t.rows.size

theorem Trimmed.of_tables {t : Table} (ht : server.table? ref = some t) (sound : t.Sound)
    (h : next.tables = server.tables) : Trimmed ref t t server next :=
  ⟨.of_tables h, (table?_of_tables h ref).trans ht, rfl, sound, le_rfl⟩

theorem Trimmed.trans {t u v : Table} (h : Trimmed ref t u server mid) (h' : Trimmed ref u v mid next) :
    Trimmed ref t v server next :=
  ⟨h.others.trans h'.others, h'.found, h'.spec.trans h.spec, h'.sound, h'.size.trans h.size⟩

end Server

namespace Session

open Server

variable {session : Session} {server next : Server} {t : Table}

theorem commit_tables (session : Session) (server : Server) :
    (session.commit server).2.tables = server.tables := by
  rw [commit_eq, bind_apply]
  have hreceive := (session.receive_snd "COMMIT" server).1
  rcases hadmitted : session.receive "COMMIT" server with ⟨e | _, admitted⟩
  · rw [hadmitted] at hreceive
    exact hreceive
  · rw [hadmitted] at hreceive
    exact hreceive

/-- A delete removes the rows that it counts. If it fails, it removes none. -/
theorem trimmed_of_delete {d : Delete} (ht : server.table? d.table = some t) (sound : t.Sound)
    {result : Except Error Nat} (h : session.delete d server = (result, next)) :
    ∃ u, Trimmed d.table t u server next ∧ ∀ count, result = .ok count →
      count = min (d.limit.getD t.rows.size) t.rows.size ∧ u.rows.size = t.rows.size - count := by
  cases result with
  | error e => exact ⟨t, .of_tables ht sound (delete_tables_of_error sound ht h), fun _ hok => by cases hok⟩
  | ok count =>
    obtain ⟨hcount, hothers, u, hfound, hspec, hsound, hrows⟩ := delete_eq_ok sound ht h
    have hsize : u.rows.size = t.rows.size - count := by
      rw [hrows, Array.size_extract, Nat.min_self]
    refine ⟨u, ⟨hothers, hfound, hspec, hsound, by omega⟩, fun count' hok => ?_⟩
    obtain rfl := Except.ok.inj hok
    exact ⟨hcount, hsize⟩

end Session
end Store

namespace Seeding

open Server

variable {session : Session} {ref : TableRef} {server next : Server} {t : Table}

/-- A chunk that is not empty makes the table smaller, and the table is empty after an empty one. -/
def Progress (t u : Table) (count : Nat) : Prop :=
  if count = 0 then u.rows.size = 0 else u.rows.size < t.rows.size

theorem trimmed_of_deleteChunk (ht : server.table? ref = some t) (sound : t.Sound)
    {result : Except Error Nat} (h : deleteChunk session ref server = (result, next)) :
    ∃ u, Trimmed ref t u server next ∧ ∀ count, result = .ok count → Progress t u count := by
  rw [deleteChunk, bind_apply] at h
  rcases hdelete : session.delete { table := ref, limit := some truncateChunk } server with
    ⟨e | count, mid⟩
  · rw [hdelete] at h
    obtain ⟨rfl, rfl⟩ := Prod.mk.inj h
    obtain ⟨u, hu, -⟩ := Session.trimmed_of_delete ht sound hdelete
    exact ⟨u, hu, fun _ hok => by cases hok⟩
  · obtain ⟨u, hu, hcount⟩ := Session.trimmed_of_delete ht sound hdelete
    obtain ⟨hmin, hsize⟩ := hcount count rfl
    simp only [hdelete, bind_apply] at h
    have htables := session.commit_tables mid
    rcases hcommit : session.commit mid with ⟨e | _, last⟩
    · rw [hcommit] at h htables
      obtain ⟨rfl, rfl⟩ := Prod.mk.inj h
      exact ⟨u, hu.trans (.of_tables hu.found hu.sound htables), fun _ hok => by cases hok⟩
    · rw [hcommit] at h htables
      obtain ⟨rfl, rfl⟩ := Prod.mk.inj h
      refine ⟨u, hu.trans (.of_tables hu.found hu.sound htables), fun count' hok => ?_⟩
      obtain rfl := Except.ok.inj hok
      simp only [Option.getD_some, truncateChunk] at hmin
      unfold Progress
      split <;> omega

theorem trimmed_of_retrying {more : Nat} (ht : server.table? ref = some t) (sound : t.Sound)
    {result : Except Error Nat} (h : retrying (deleteChunk session ref) more server = (result, next)) :
    ∃ u, Trimmed ref t u server next ∧ ∀ count, result = .ok count → Progress t u count := by
  induction more generalizing server t with
  | zero => exact trimmed_of_deleteChunk ht sound h
  | succ more ih =>
    rw [retrying, tryCatch_apply] at h
    rcases hfirst : deleteChunk session ref server with ⟨e | count, mid⟩
    · rw [hfirst] at h
      obtain ⟨u, hu, -⟩ := trimmed_of_deleteChunk ht sound hfirst
      dsimp only at h
      split at h
      · -- The next try starts from what the failed one left.
        obtain ⟨v, hv, hprogress⟩ := ih hu.found hu.sound h
        refine ⟨v, hu.trans hv, fun count hok => ?_⟩
        have hdone := hprogress count hok
        have hle := hu.size
        unfold Progress at hdone ⊢
        by_cases hcount : count = 0
        · rw [if_pos hcount] at hdone ⊢
          exact hdone
        · rw [if_neg hcount] at hdone ⊢
          omega
      · obtain ⟨rfl, rfl⟩ := Prod.mk.inj h
        exact ⟨u, hu, fun _ hok => by cases hok⟩
    · rw [hfirst] at h
      obtain ⟨rfl, rfl⟩ := Prod.mk.inj h
      exact trimmed_of_deleteChunk ht sound hfirst

/-- More chunks than rows leave no row. -/
theorem trimmed_of_deleteChunks {policy : RetryPolicy} {most total : Nat}
    (ht : server.table? ref = some t) (sound : t.Sound)
    (h : deleteChunks session ref policy most server = (.ok total, next)) :
    ∃ u, Trimmed ref t u server next ∧ (t.rows.size < most → u.rows.size = 0) := by
  induction most generalizing server t total with
  | zero =>
    obtain ⟨-, rfl⟩ := pure_apply_eq_ok.1 h
    exact ⟨t, .of_tables ht sound rfl, fun hlt => absurd hlt (Nat.not_lt_zero _)⟩
  | succ most ih =>
    obtain ⟨count, mid, hchunk, h⟩ := bind_apply_eq_ok.1 h
    obtain ⟨u, hu, hprogress⟩ := trimmed_of_retrying ht sound hchunk
    have hdone := hprogress count rfl
    unfold Progress at hdone
    split at h
    · rename_i hzero
      obtain ⟨-, rfl⟩ := pure_apply_eq_ok.1 h
      exact ⟨u, hu, fun _ => by simpa [hzero] using hdone⟩
    · rename_i hpos
      rw [if_neg hpos] at hdone
      obtain ⟨rest, last, hrest, h⟩ := bind_apply_eq_ok.1 h
      obtain ⟨-, rfl⟩ := pure_apply_eq_ok.1 h
      obtain ⟨v, hv, hempty⟩ := ih hu.found hu.sound hrest
      exact ⟨v, hu.trans hv, fun hlt => hempty (by omega)⟩

theorem trimmed_of_truncate {policy : RetryPolicy} {total : Nat} (ht : server.table? ref = some t)
    (sound : t.Sound) (h : truncate session ref policy server = (.ok total, next)) :
    ∃ u, Trimmed ref t u server next ∧ u.rows = #[] := by
  obtain ⟨now, same, hget, h⟩ := bind_apply_eq_ok.1 h
  obtain ⟨hnow, rfl⟩ := Prod.mk.inj ((get_apply server).symm.trans hget)
  obtain rfl := Except.ok.inj hnow
  have hcount : server.rowCount ref = t.rows.size := by
    rw [Server.rowCount, ht]
    rfl
  obtain ⟨u, hu, hempty⟩ := trimmed_of_deleteChunks ht sound (Run.ofAction_eq_ok.1 h)
  exact ⟨u, hu, Array.size_eq_zero_iff.1 (hempty (by omega))⟩

/-- Empties a table if asked to. -/
def clearing (clear : Bool) (session : Session) (ref : TableRef) (policy : RetryPolicy) : Run Nat :=
  if clear then truncate session ref policy else pure 0

theorem trimmed_of_clearing {policy : RetryPolicy} {clear : Bool} {total : Nat}
    (ht : server.table? ref = some t) (sound : t.Sound)
    (h : clearing clear session ref policy server = (.ok total, next)) :
    ∃ u, Trimmed ref t u server next ∧ (clear ∨ t.rows = #[] → u.rows = #[]) := by
  cases clear with
  | true =>
    obtain ⟨u, hu, hempty⟩ := trimmed_of_truncate ht sound h
    exact ⟨u, hu, fun _ => hempty⟩
  | false =>
    obtain ⟨-, rfl⟩ := pure_apply_eq_ok.1 h
    exact ⟨t, .of_tables ht sound rfl, fun vacant => vacant.resolve_left Bool.false_ne_true⟩

theorem applySettings_cons_snd (session : Session) (setting : String) (rest : List String) (server : Server) :
    (applySettings session (setting :: rest) server).2 =
      (applySettings session rest (session.execute setting server).2).2 := by
  simp only [applySettings, bind, StateT.bind]
  rcases session.execute setting server with ⟨e | n, last⟩ <;> rfl

theorem applySettings_tables {settings : List String}
    (harmless : ∀ setting ∈ settings, Action.reading setting = .ok none) (server : Server) :
    (applySettings session settings server).2.tables = server.tables := by
  induction settings generalizing server with
  | nil => rfl
  | cons setting rest ih =>
    have hexecute : (session.execute setting server).2.tables = server.tables := by
      have hreceive := (session.receive_snd setting server).1
      rw [Session.execute_eq, harmless setting (by simp), bind_apply]
      rcases hadmitted : session.receive setting server with ⟨e | _, admitted⟩
      · rw [hadmitted] at hreceive
        exact hreceive
      · rw [hadmitted] at hreceive
        exact hreceive
    have hrest := ih (fun later hlater => harmless later (by simp [hlater]))
    rw [applySettings_cons_snd, hrest, hexecute]

theorem reading_settings :
    ∀ setting ∈ noBackslashEscapes :: (bulkSettings ++ restoringSettings),
      Action.reading setting = .ok none := by
  intro setting h
  simp only [bulkSettings, restoringSettings, List.cons_append, List.nil_append, List.mem_cons,
    List.not_mem_nil, or_false] at h
  rcases h with rfl | rfl | rfl | rfl | rfl <;> rfl

theorem optimize_tables (session : Session) (rawText : Bool) (server : Server) :
    (optimize session rawText server).2.tables = server.tables := by
  have hbulk : ∀ server, (applySettings session bulkSettings server).2.tables = server.tables :=
    applySettings_tables fun setting h => reading_settings setting (by simp [h])
  have hraw : ∀ server, (applySettings session [noBackslashEscapes] server).2.tables = server.tables :=
    applySettings_tables fun setting h => reading_settings setting (by simp_all)
  cases rawText with
  | false => exact hbulk server
  | true => exact (hraw _).trans (hbulk server)

theorem restore_tables (session : Session) (server : Server) :
    (restore session server).2.tables = server.tables := by
  have hrestore : ∀ server, (applySettings session restoringSettings server).2.tables = server.tables :=
    applySettings_tables fun setting h => reading_settings setting (by simp [h])
  exact hrestore server

end Seeding
end ReadingBench

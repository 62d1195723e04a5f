import ReadingBench.Proofs.Seeding.Afresh
import ReadingBench.Proofs.Seeding.Plan

namespace ReadingBench

open Sql Store Outcome Server

/-- How often a chunk is tried. -/
def RetryPolicy.tries (policy : RetryPolicy) : Nat := max 1 policy.maxAttempts.toNat

namespace Seeding

variable {session : Session} {ref : TableRef} {policy : RetryPolicy} {server mid next : Server} {t : Table}

/-- Removes one chunk, in as many tries as the policy allows. -/
def removeChunk (session : Session) (ref : TableRef) (policy : RetryPolicy) : Action Nat :=
  retrying (deleteChunk session ref) (policy.maxAttempts.toNat - 1)

/-- Chunks are removed until one is empty or fails: so many of them, without a bound given before. -/
inductive Empties (session : Session) (ref : TableRef) (policy : RetryPolicy) :
    Nat → Server → Except Error Nat → Server → Prop
  | failed {server next : Server} {e : Error} (chunk : removeChunk session ref policy server = (.error e, next)) :
      Empties session ref policy 1 server (.error e) next
  | last {server next : Server} (chunk : removeChunk session ref policy server = (.ok 0, next)) :
      Empties session ref policy 1 server (.ok 0) next
  | more {server mid next : Server} {count chunks : Nat} {result : Except Error Nat}
      (chunk : removeChunk session ref policy server = (.ok count, mid)) (pos : 0 < count)
      (rest : Empties session ref policy chunks mid result next) :
      Empties session ref policy (chunks + 1) server (result.map (count + ·)) next

/-- Every bound that the loop does not reach leaves it as it is. -/
theorem Empties.deleteChunks {chunks : Nat} {result : Except Error Nat}
    (h : Empties session ref policy chunks server result next) {most : Nat} (hmost : chunks ≤ most) :
    deleteChunks session ref policy most server = (result, next) := by
  induction h generalizing most with
  | failed chunk =>
    obtain ⟨most, rfl⟩ := Nat.exists_eq_add_of_le' hmost
    rw [Seeding.deleteChunks, bind_apply, ← removeChunk, chunk]
  | last chunk =>
    obtain ⟨most, rfl⟩ := Nat.exists_eq_add_of_le' hmost
    rw [Seeding.deleteChunks, bind_apply, ← removeChunk, chunk]
    rfl
  | @more server mid next count chunks result chunk pos rest ih =>
    obtain ⟨most, rfl⟩ : ∃ n, most = n + 1 := ⟨most - 1, by omega⟩
    rw [Seeding.deleteChunks, bind_apply, ← removeChunk, chunk]
    dsimp only
    rw [if_neg pos.ne', bind_apply, ih (by omega)]
    cases result <;> rfl

/-- The loop depends on its server through the first chunk. -/
theorem Empties.of_chunk_eq {chunks : Nat} {result : Except Error Nat}
    (h : Empties session ref policy chunks mid result next)
    (same : removeChunk session ref policy server = removeChunk session ref policy mid) :
    Empties session ref policy chunks server result next := by
  cases h with
  | failed chunk => exact .failed (same.trans chunk)
  | last chunk => exact .last (same.trans chunk)
  | more chunk pos rest => exact .more (same.trans chunk) pos rest

theorem delete_commits (session : Session) (d : Delete) (server : Server) :
    (session.delete d server).2.commits = server.commits := by
  have hreceive := (session.receive_snd d.sql server).2.2.1
  rw [Session.delete_eq, bind_apply]
  rcases hadmitted : session.receive d.sql server with ⟨e | _, admitted⟩
  · rw [hadmitted] at hreceive
    exact hreceive
  · rw [hadmitted] at hreceive
    dsimp only
    rw [bind_apply, Action.table_apply]
    cases admitted.table? d.table with
    | none => exact hreceive
    | some t =>
      simp only [bind_apply, Action.setTable_apply, lift_apply]
      cases (t.dropFirst (min (d.limit.getD t.rows.size) t.rows.size)).reindex <;> exact hreceive

theorem deleteChunk_commits {count : Nat} (h : deleteChunk session ref server = (.ok count, next)) :
    next.commits = server.commits + 1 := by
  obtain ⟨n, mid, hdelete, h⟩ := bind_apply_eq_ok.1 h
  obtain ⟨_, last, hcommit, h⟩ := bind_apply_eq_ok.1 h
  obtain ⟨-, rfl⟩ := pure_apply_eq_ok.1 h
  have hmid : mid.commits = server.commits := by
    have hcommits := delete_commits session { table := ref, limit := some truncateChunk } server
    rwa [hdelete] at hcommits
  rw [Session.commit_eq] at hcommit
  obtain ⟨_, admitted, hreceive, hcommit⟩ := bind_apply_eq_ok.1 hcommit
  obtain ⟨-, rfl⟩ := Prod.mk.inj ((modify_apply _ _).symm.trans hcommit)
  have hkept := (session.receive_snd "COMMIT" mid).2.2.1
  rw [hreceive] at hkept
  exact congrArg (· + 1) (hkept.trans hmid)

/-- One commit for each chunk of rows, and one for the empty chunk behind them. -/
theorem exists_empties (policy : RetryPolicy) (calm : Calm session server) (ht : server.table? ref = some t)
    (sound : t.Sound) : ∃ next,
      Empties session ref policy (t.rows.size ⌈/⌉ truncateChunk + 1) server (.ok t.rows.size) next ∧
        Arrives session ref server next (.empty t.spec) ∧
          next.commits = server.commits + (t.rows.size ⌈/⌉ truncateChunk + 1) := by
  induction hsize : t.rows.size using Nat.strong_induction_on generalizing server t with
  | _ size ih =>
    subst hsize
    by_cases hvacant : t.rows = #[]
    · obtain ⟨next, hchunk, hothers, hfound⟩ := deleteChunk_vacant calm ht hvacant
      have hkept := (respects_deleteChunk session ref).keepsCalm.after calm hchunk
      have hcommits := deleteChunk_commits hchunk
      rw [hvacant, Array.size_empty, zero_ceilDiv]
      exact ⟨next, .last (retrying_of_ok hchunk _), ⟨hkept, hothers, hfound⟩, hcommits⟩
    · have hpos : 0 < t.rows.size := Array.size_pos_iff.2 hvacant
      obtain ⟨mid, u, hchunk, hu, hleft⟩ := deleteChunk_calm calm ht sound
      have hkept := (respects_deleteChunk session ref).keepsCalm.after calm hchunk
      have hcommits := deleteChunk_commits hchunk
      have hcount : 0 < min truncateChunk t.rows.size := lt_min (by decide) hpos
      obtain ⟨next, hempties, harrives, hrest⟩ := ih _ (by omega) hkept hu.found hu.sound rfl
      have htotal : min truncateChunk t.rows.size + u.rows.size = t.rows.size := by omega
      have hchunks : u.rows.size ⌈/⌉ truncateChunk + 1 = t.rows.size ⌈/⌉ truncateChunk := by
        rw [hleft]
        exact (Batches.ceilDiv_step t.rows.size truncateChunk (by decide) hpos).symm
      have hall := Empties.more (retrying_of_ok hchunk _) hcount hempties
      rw [hu.spec] at harrives
      rw [Except.map, htotal, hchunks] at hall
      refine ⟨next, hall, ⟨harrives.calm, hu.others.trans harrives.others, harrives.found⟩, ?_⟩
      rw [hrest, hcommits]
      omega

/-- All that happened is that so many waiting failures are gone. -/
structure Spent (n : Nat) (server next : Server) : Prop where
  failures : next.failures = server.failures.drop n
  tables : next.tables = server.tables
  commits : next.commits = server.commits
  closed : next.closed = server.closed

theorem Spent.logged (server : Server) (sql : String) : Spent 1 server (server.logged sql) where
  failures := List.drop_one.symm
  tables := rfl
  commits := rfl
  closed := rfl

theorem Spent.trans {m n : Nat} (h : Spent m server mid) (h' : Spent n mid next) :
    Spent (m + n) server next where
  failures := by rw [h'.failures, h.failures, List.drop_drop]
  tables := h'.tables.trans h.tables
  commits := h'.commits.trans h.commits
  closed := h'.closed.trans h.closed

theorem Spent.isClosed {n : Nat} (h : Spent n server next) (session : Session) :
    session.isClosed next = session.isClosed server := by
  rw [Session.isClosed, h.closed, Session.isClosed]

theorem deleteChunk_of_failure (ref : TableRef) (opened : session.isClosed server = false) {e : Error}
    {rest : List Error} (waiting : server.failures = e :: rest) :
    ∃ next, deleteChunk session ref server = (.error e, next) ∧ Spent 1 server next := by
  refine ⟨_, ?_, .logged server (Delete.sql { table := ref, limit := some truncateChunk })⟩
  rw [deleteChunk, bind_apply, Session.delete_eq, bind_apply, receive_open opened, waiting]
  rfl

/-- So many tries get past the failures: all of them are transient, and there are fewer of them. -/
structure Passes (tries : Nat) (failures : List Error) : Prop where
  transient : ∀ e ∈ failures, e.isTransient
  fewer : failures.length < tries

/-- The place, counted from 1, of the failure at which so many tries end: the last of them, or the first
that meets a failure that is not transient. -/
def stopAt (tries : Nat) (failures : List Error) : Nat :=
  min tries (failures.findIdx (fun e => !e.isTransient) + 1)

/-- Behind the failures the chunk is removed as if they had not been. -/
theorem exists_retrying_of_passes (ref : TableRef) {more : Nat} (opened : session.isClosed server = false)
    (passes : Passes (more + 1) server.failures) : ∃ mid, Spent server.failures.length server mid ∧
      ∀ n last, deleteChunk session ref mid = (.ok n, last) →
        retrying (deleteChunk session ref) more server = (.ok n, last) := by
  induction more generalizing server with
  | zero =>
    have hnone : server.failures = [] := List.eq_nil_of_length_eq_zero (Nat.lt_one_iff.1 passes.fewer)
    rw [hnone]
    exact ⟨server, ⟨rfl, rfl, rfl, rfl⟩, fun n last h => h⟩
  | succ more ih =>
    cases hwaiting : server.failures with
    | nil => exact ⟨server, ⟨rfl, rfl, rfl, rfl⟩, fun n last h => retrying_of_ok h _⟩
    | cons e rest =>
      rw [hwaiting] at passes
      obtain ⟨first, hfirst, hspent⟩ := deleteChunk_of_failure ref opened hwaiting
      have hrest : first.failures = rest := by rw [hspent.failures, hwaiting, List.drop_one, List.tail_cons]
      have hpasses : Passes (more + 1) first.failures := by
        rw [hrest]
        exact ⟨fun e' he' => passes.transient e' (List.mem_cons_of_mem _ he'),
          Nat.lt_of_succ_lt_succ passes.fewer⟩
      obtain ⟨mid, hmid, hretrying⟩ := ih ((hspent.isClosed session).trans opened) hpasses
      rw [hrest] at hmid
      refine ⟨mid, ?_, fun n last h => ?_⟩
      · rw [List.length_cons, Nat.add_comm]
        exact hspent.trans hmid
      · rw [retrying, tryCatch_apply, hfirst]
        dsimp only
        rw [if_pos (passes.transient e List.mem_cons_self)]
        exact hretrying n last h

theorem stopAt_of_transient {e : Error} (h : e.isTransient) (tries : Nat) (rest : List Error) :
    stopAt (tries + 1) (e :: rest) = stopAt tries rest + 1 := by
  have hfind : (e :: rest).findIdx (fun e => !e.isTransient) =
      rest.findIdx (fun e => !e.isTransient) + 1 := by
    simp [List.findIdx_cons, h]
  rw [stopAt, hfind, Nat.add_min_add_right, ← stopAt]

theorem stopAt_of_lasting {e : Error} (h : e.isTransient = false) (tries : Nat) (rest : List Error) :
    stopAt (tries + 1) (e :: rest) = 1 := by
  have hfind : (e :: rest).findIdx (fun e => !e.isTransient) = 0 := by
    simp [List.findIdx_cons, h]
  rw [stopAt, hfind]
  exact min_eq_right (Nat.le_add_left 1 tries)

/-- Tries that do not get past the failures end at one of them. -/
theorem exists_retrying_of_not_passes (ref : TableRef) {more : Nat} (opened : session.isClosed server = false)
    (stuck : ¬Passes (more + 1) server.failures) : ∃ e next,
      server.failures[stopAt (more + 1) server.failures - 1]? = some e ∧
        Spent (stopAt (more + 1) server.failures) server next ∧
          retrying (deleteChunk session ref) more server = (.error e, next) := by
  induction more generalizing server with
  | zero =>
    cases hwaiting : server.failures with
    | nil => exact absurd ⟨by simp [hwaiting], by simp [hwaiting]⟩ stuck
    | cons e rest =>
      obtain ⟨first, hfirst, hspent⟩ := deleteChunk_of_failure ref opened hwaiting
      have hstop : stopAt 1 (e :: rest) = 1 := min_eq_left (Nat.le_add_left 1 _)
      rw [hstop]
      exact ⟨e, first, rfl, hspent, hfirst⟩
  | succ more ih =>
    cases hwaiting : server.failures with
    | nil => exact absurd ⟨by simp [hwaiting], by simp [hwaiting]⟩ stuck
    | cons e rest =>
      obtain ⟨first, hfirst, hspent⟩ := deleteChunk_of_failure ref opened hwaiting
      have hrest : first.failures = rest := by rw [hspent.failures, hwaiting, List.drop_one, List.tail_cons]
      rw [retrying, tryCatch_apply, hfirst]
      dsimp only
      cases htransient : e.isTransient with
      | false =>
        rw [stopAt_of_lasting htransient]
        exact ⟨e, first, rfl, hspent, rfl⟩
      | true =>
        have hstuck : ¬Passes (more + 1) first.failures := by
          rintro ⟨transient, fewer⟩
          rw [hrest] at transient fewer
          refine stuck ⟨?_, ?_⟩
          · rw [hwaiting]
            exact List.forall_mem_cons.2 ⟨htransient, transient⟩
          · rw [hwaiting]
            exact Nat.succ_lt_succ fewer
        obtain ⟨e', next, he', hnext, hretrying⟩ := ih ((hspent.isClosed session).trans opened) hstuck
        rw [hrest] at he' hnext
        rw [stopAt_of_transient htransient]
        have hpos : 0 < stopAt (more + 1) rest := lt_min (Nat.succ_pos _) (Nat.succ_pos _)
        refine ⟨e', next, ?_, Nat.add_comm 1 _ ▸ hspent.trans hnext, hretrying⟩
        obtain ⟨place, hplace⟩ := Nat.exists_eq_add_of_le' hpos
        rw [hplace] at he' ⊢
        exact he'

theorem RetryPolicy.tries_eq (policy : RetryPolicy) : policy.tries = policy.maxAttempts.toNat - 1 + 1 := by
  unfold RetryPolicy.tries
  omega

/-- Whatever failures wait, the truncation of a table ends. Where the tries get past them all rows are
gone, with one commit for each chunk of rows and one for the empty chunk behind them; otherwise the failure
at which the tries stop is the error, and nothing has happened but that it and those before it are gone. -/
theorem truncate_under_failures (reachable : server.Reachable) (opened : session.isClosed server = false)
    (ht : server.table? ref = some t) (policy : RetryPolicy) : ∃ chunks result next,
      Empties session ref policy chunks server result next ∧
      truncate session ref policy server = (result.mapError (.failed <| .sql ·), next) ∧
      (Passes policy.tries server.failures → result = .ok t.rows.size ∧
        next.table? ref = some (.empty t.spec) ∧ SameBut ref server next ∧ next.failures = [] ∧
          next.commits = server.commits + (t.rows.size ⌈/⌉ truncateChunk + 1)) ∧
      (¬Passes policy.tries server.failures → ∃ e,
        server.failures[stopAt policy.tries server.failures - 1]? = some e ∧ result = .error e ∧
          Spent (stopAt policy.tries server.failures) server next) := by
  have sound : t.Sound := reachable.sound ref.key t ht
  have hcount : server.rowCount ref = t.rows.size := by
    rw [Server.rowCount, ht]
    rfl
  -- A table with rows takes no more chunks than it has rows, and one more.
  have hends : ∀ {chunks : Nat} {result : Except Error Nat} {next : Server},
      Empties session ref policy chunks server result next → chunks ≤ t.rows.size + 1 →
        truncate session ref policy server = (result.mapError (.failed <| .sql ·), next) := by
    intro chunks result next hempties hfew
    rw [truncate, bind_apply, get_apply]
    dsimp only
    rw [hcount, Run.ofAction, hempties.deleteChunks hfew]
    cases result <;> rfl
  rw [RetryPolicy.tries_eq]
  by_cases hpasses : Passes (policy.maxAttempts.toNat - 1 + 1) server.failures
  · obtain ⟨mid, hspent, hretrying⟩ := exists_retrying_of_passes ref opened hpasses
    have hcalm : Calm session mid :=
      ⟨by rw [hspent.failures, List.drop_length], (hspent.isClosed session).trans opened⟩
    have hfound : mid.table? ref = some t := (table?_of_tables hspent.tables ref).trans ht
    obtain ⟨next, hempties, harrives, hcommits⟩ := exists_empties policy hcalm hfound sound
    obtain ⟨last, u, hchunk, -⟩ := deleteChunk_calm hcalm hfound sound
    have hsame : removeChunk session ref policy server = removeChunk session ref policy mid :=
      (hretrying _ _ hchunk).trans (retrying_of_ok hchunk _).symm
    have hall := hempties.of_chunk_eq hsame
    refine ⟨_, _, next, hall, hends hall ?_, fun _ => ⟨rfl, harrives.found, ?_, ?_, ?_⟩,
      fun stuck => absurd hpasses stuck⟩
    · refine Nat.succ_le_succ ((ceilDiv_le_iff_le_mul (by decide)).2 ?_)
      exact Nat.le_mul_of_pos_left _ (by decide)
    · exact (SameBut.of_tables hspent.tables).trans harrives.others
    · exact harrives.calm.failures
    · rw [hcommits, hspent.commits]
  · obtain ⟨e, next, he, hspent, hretrying⟩ := exists_retrying_of_not_passes ref opened hpasses
    have hall : Empties session ref policy 1 server (.error e) next := .failed hretrying
    exact ⟨1, .error e, next, hall, hends hall (Nat.le_add_left 1 _), fun passes => absurd passes hpasses,
      fun _ => ⟨e, he, rfl, hspent⟩⟩

def numbers : TableSpec := { table := ⟨none, "t"⟩, columns := ["id"], uniqueKeys := [["id"]] }

def deadlock : Error := .server 1213 "Deadlock found"

def lockWait : Error := .server 1205 "Lock wait timeout"

/-- Two rows, and two failures in the way of removing them. -/
def contended : Server := (Server.empty still).after
  [.define numbers, .insert .root { table := numbers.table, columns := ["id"], rows := [[.int 1], [.int 2]] },
    .failNext deadlock, .failNext lockWait]

theorem truncate_under_failures_contended :
    (contended.Reachable ∧ Session.root.isClosed contended = false ∧
      ∃ t, contended.table? numbers.table = some t ∧ t.rows.size = 2) ∧
    (truncate .root numbers.table (.immediate 3) contended).1 = .ok 2 ∧
    (truncate .root numbers.table (.immediate 3) contended).2.commits = 2 ∧
    (truncate .root numbers.table (.immediate 2) contended).1 = .error (.failed (.sql lockWait)) := by
  have reachable : contended.Reachable := ⟨_, _, rfl⟩
  have opened : Session.root.isClosed contended = false := by decide +kernel
  have hsize : (contended.table? numbers.table).map (·.rows.size) = some 2 := by decide +kernel
  obtain ⟨t, ht, hrows⟩ := Option.map_eq_some_iff.1 hsize
  have waiting : contended.failures = [deadlock, lockWait] := by decide +kernel
  have hcommits : contended.commits = 0 := by decide +kernel
  refine ⟨⟨reachable, opened, t, ht, hrows⟩, ?_⟩
  obtain ⟨_, _, next, -, hdone, hpasses, -⟩ := truncate_under_failures reachable opened ht (.immediate 3)
  obtain ⟨_, _, _, -, hstopped, -, hstuck⟩ := truncate_under_failures reachable opened ht (.immediate 2)
  rw [waiting] at hpasses hstuck
  obtain ⟨rfl, -, -, -, hnext⟩ := hpasses ⟨by decide, by decide⟩
  obtain ⟨e, he, rfl, -⟩ := hstuck fun passes => absurd passes.fewer (by decide)
  obtain rfl : lockWait = e := Option.some.inj he
  rw [hdone, hstopped, hnext, hcommits, hrows]
  exact ⟨rfl, rfl, rfl⟩

end Seeding
end ReadingBench

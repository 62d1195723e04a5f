import ReadingBench.Proofs.Seeding.Accepted
import ReadingBench.Proofs.Seeding.Plan
import ReadingBench.Proofs.Store.Effect

namespace ReadingBench

open Sql Store Outcome Server

namespace Store

namespace Operation

/-- No table changes. -/
def Idle (op : Operation) : Prop := op.target? = none

/-- No table changes but this one, and this one only by a delete. -/
def Clears (ref : TableRef) (op : Operation) : Prop := op.Within ref ∧ op.Trims ref

variable {ref : TableRef} {op : Operation}

theorem Idle.within (h : op.Idle) : op.Within ref := fun _ htarget => by cases h.symm.trans htarget

theorem Idle.trims (h : op.Idle) : op.Trims ref := fun htarget => by cases h.symm.trans htarget

theorem Idle.fills (h : op.Idle) : op.Fills ref := fun htarget => by cases h.symm.trans htarget

theorem Idle.clears (h : op.Idle) : op.Clears ref := ⟨h.within, h.trims⟩

theorem Clears.insert_eq_none (h : op.Clears ref) : op.insert? = none := by
  rw [Option.eq_none_iff_forall_ne_some]
  rintro ⟨s, sql, statement⟩ hinsert
  have htarget := (target_of_insert hinsert).2
  obtain ⟨s', d, hdelete⟩ := h.2 (htarget.trans (congrArg some (h.1 _ htarget)))
  rw [hdelete] at hinsert
  cases hinsert

theorem Idle.insert_eq_none (h : op.Idle) : op.insert? = none := by
  have hclears : op.Clears ⟨none, ""⟩ := h.clears
  exact hclears.insert_eq_none

end Operation

/-- Every insert that succeeds is followed at once by a commit of its session. -/
def Committed : List Event → Prop
  | [] => True
  | e :: events =>
    (∀ s sql statement, e.request.insert? = some (s, sql, statement) → e.succeeded →
      (events.head?).map (·.request) = some (.commit s)) ∧ Committed events

theorem Committed.append {first later : List Event} (h : Committed first) (h' : Committed later) :
    Committed (first ++ later) := by
  induction first with
  | nil => exact h'
  | cons e events ih =>
    obtain ⟨hnext, hrest⟩ := h
    refine ⟨fun s sql statement hinsert hdone => ?_, ih hrest⟩
    have hcommit := hnext s sql statement hinsert hdone
    cases events with
    | nil => cases hcommit
    | cons next events => exact hcommit

theorem committed_of_none {events : List Event} (h : ∀ e ∈ events, e.request.insert? = none) :
    Committed events := by
  induction events with
  | nil => trivial
  | cons e events ih =>
    refine ⟨fun s sql statement hinsert => ?_, ih fun later hlater => h later (by simp [hlater])⟩
    rw [h e (by simp)] at hinsert
    cases hinsert

end Store

namespace Seeding

section Maintenance

variable {sessions : List Session} {session : Session} (hs : session ∈ sessions)

theorem only_of_snd {C : Operation → Prop} {α β γ : Type} {first : Run α} {second : Run β} {work : Run γ}
    (h : Only C sessions first) (h' : Only C sessions second)
    (hsnd : ∀ server, (work server).2 = (second (first server).2).2) : Only C sessions work := by
  intro server hopen
  obtain ⟨ops, hadmits, hafter, hkept, hall⟩ := h server hopen
  obtain ⟨later, hadmits', hafter', hkept', hall'⟩ := h' _ hkept
  refine ⟨ops ++ later, admits_append.2 ⟨hadmits, hadmits'⟩, ?_, ?_, ?_⟩
  · rw [hsnd, hafter, hafter', after_append]
  · rw [after_append]
    exact hkept'
  · rw [events_append]
    exact List.forall_mem_append.2 ⟨hall, hall'⟩

include hs

theorem only_execute {sql : String} (h : Action.reading sql = .ok none) :
    Only Operation.Idle sessions (session.execute sql) := by
  refine (takes_execute hs sql).imp ?_
  rintro events r ⟨answer, rfl, -⟩
  simp [Operation.Idle, Operation.target?, h]

theorem only_commit : Only Operation.Idle sessions session.commit := by
  refine (takes_commit hs).imp ?_
  rintro events r ⟨answer, rfl, -⟩
  simp [Operation.Idle, Operation.target?]

theorem only_applySettings {settings : List String}
    (harmless : ∀ setting ∈ settings, Action.reading setting = .ok none) :
    Only Operation.Idle sessions (liftM (applySettings session settings) : Run Nat) := by
  induction settings with
  | nil => exact only_pure 0
  | cons setting rest ih =>
    have hrest := ih fun later hlater => harmless later (by simp [hlater])
    refine only_of_snd (only_execute hs (harmless setting (by simp))).ofAction hrest fun server => ?_
    rw [Run.liftState_apply, Run.liftState_apply, applySettings_cons_snd]
    unfold Run.ofAction
    rcases session.execute setting server with ⟨e | n, next⟩ <;> rfl

theorem only_optimize (rawText : Bool) :
    Only Operation.Idle sessions (liftM (optimize session rawText) : Run Unit) := by
  have hbulk : Only Operation.Idle sessions (liftM (applySettings session bulkSettings) : Run Nat) :=
    only_applySettings hs fun setting h => reading_settings setting (by simp [h])
  have hraw : Only Operation.Idle sessions
      (liftM (applySettings session [noBackslashEscapes]) : Run Nat) :=
    only_applySettings hs fun setting h => reading_settings setting (by simp_all)
  cases rawText with
  | false => exact only_of_snd hbulk (only_pure ()) fun _ => rfl
  | true => exact only_of_snd hbulk hraw fun _ => rfl

theorem only_restore : Only Operation.Idle sessions (liftM (restore session) : Run Unit) := by
  have hrestore : Only Operation.Idle sessions
      (liftM (applySettings session restoringSettings) : Run Nat) :=
    only_applySettings hs fun setting h => reading_settings setting (by simp [h])
  exact only_of_snd hrestore (only_pure ()) fun _ => rfl

theorem only_deleteChunk (ref : TableRef) :
    Only (Operation.Clears ref) sessions (deleteChunk session ref) := by
  have hdelete : Only (Operation.Clears ref) sessions
      (session.delete { table := ref, limit := some truncateChunk }) := by
    refine (takes_delete hs _).imp ?_
    rintro events r ⟨answer, rfl, -⟩
    simp [Operation.Clears, Operation.Within, Operation.Trims, Operation.target?]
  have hcommit : Only (Operation.Clears ref) sessions session.commit :=
    (only_commit hs).imp fun op => Operation.Idle.clears
  exact hdelete.bind fun count => hcommit.bind fun _ => only_pure count

theorem only_deleteChunks (ref : TableRef) (policy : RetryPolicy) (most : Nat) :
    Only (Operation.Clears ref) sessions (deleteChunks session ref policy most) := by
  have hretrying : ∀ more, Only (Operation.Clears ref) sessions
      (retrying (deleteChunk session ref) more) := by
    intro more
    induction more with
    | zero => exact only_deleteChunk hs ref
    | succ more ih =>
      refine (only_deleteChunk hs ref).tryCatch fun e => ?_
      split
      · exact ih
      · exact only_throw e
  induction most with
  | zero => exact only_pure 0
  | succ most ih =>
    refine (hretrying _).bind fun count => ?_
    split
    · exact only_pure 0
    · exact ih.bind fun rest => only_pure _

theorem only_clearing (clear : Bool) (ref : TableRef) (policy : RetryPolicy) :
    Only (fun op => op.Clears ref ∧ (clear = false → op.Idle)) sessions
      (clearing clear session ref policy) := by
  cases clear with
  | false => exact only_pure 0
  | true =>
    have hget : Only (fun op => op.Clears ref ∧ (true = false → op.Idle)) sessions (get : Run Server) :=
      fun server hopen => ⟨[], trivial, rfl, hopen, fun _ he => by cases he⟩
    refine hget.bind fun server => ((only_deleteChunks hs ref policy _).imp ?_).ofAction
    exact fun op hclears => ⟨hclears, fun hfalse => by cases hfalse⟩

end Maintenance

/-- Inserts and their commits, in order. The second list has what was not inserted. -/
inductive Flushes (session : Session) : List Insert → List Insert → List Event → Prop where
  | stopped (coming : List Insert) : Flushes session coming coming []
  | refused {statement : Insert} {coming : List Insert} {op : Operation} {sql : String} {e : Error}
      (asked : op.insert? = some (session, sql, statement)) :
      Flushes session (statement :: coming) (statement :: coming) [⟨op, .error e⟩]
  | flushed {statement : Insert} {coming left : List Insert} {op : Operation} {sql : String}
      {answer : Answer} {committed : Except Error Answer} {events : List Event}
      (asked : op.insert? = some (session, sql, statement))
      (rest : Flushes session coming left events) :
      Flushes session (statement :: coming) left
        (⟨op, .ok answer⟩ :: ⟨.commit session, committed⟩ :: events)

section Flushes

variable {session : Session} {ref : TableRef} {statements left : List Insert} {events : List Event}

theorem insertInto?_of_asked {op : Operation} {sql : String} {statement : Insert}
    (asked : op.insert? = some (session, sql, statement)) (table : statement.table = ref)
    (answer : Except Error Answer) : Event.insertInto? ref ⟨op, answer⟩ = some statement :=
  Event.insertInto?_eq_some.2 ⟨⟨_, _, asked⟩, congrArg TableRef.key table⟩

theorem insertInto?_commit (answer : Except Error Answer) :
    Event.insertInto? ref ⟨.commit session, answer⟩ = none := rfl

theorem Flushes.stored_append (h : Flushes session statements left events)
    (tables : ∀ statement ∈ statements, statement.table = ref) : stored ref events ++ left = statements := by
  induction h with
  | stopped coming => rfl
  | refused asked => rfl
  | @flushed statement coming left op sql answer committed events asked rest ih =>
    have hinto := insertInto?_of_asked asked (tables statement (by simp)) (.ok answer)
    have hrest := ih fun later hlater => tables later (by simp [hlater])
    have hstored : stored ref (⟨op, .ok answer⟩ :: ⟨.commit session, committed⟩ :: events) =
        statement :: stored ref events := by
      simp only [stored, inserts, List.filter_cons, Event.succeeded, Except.toOption, Option.isSome_some,
        if_true, List.filterMap_cons, hinto]
      split <;> rfl
    rw [hstored, List.cons_append, hrest]

theorem Flushes.inserts (h : Flushes session statements left events)
    (tables : ∀ statement ∈ statements, statement.table = ref) : inserts ref events <+: statements := by
  induction h with
  | stopped coming => exact List.nil_prefix
  | @refused statement coming op sql e asked =>
    have hinto := insertInto?_of_asked asked (tables statement (by simp)) (.error e)
    exact ⟨coming, by simp [Store.inserts, hinto]⟩
  | @flushed statement coming left op sql answer committed events asked rest ih =>
    have hinto := insertInto?_of_asked asked (tables statement (by simp)) (.ok answer)
    obtain ⟨more, hmore⟩ := ih fun later hlater => tables later (by simp [hlater])
    refine ⟨more, ?_⟩
    rw [Store.inserts, List.filterMap_cons_some hinto, List.filterMap_cons_none (insertInto?_commit _),
      List.cons_append]
    exact congrArg _ hmore

theorem Flushes.committed (h : Flushes session statements left events) : Committed events := by
  induction h with
  | stopped coming => trivial
  | refused asked => exact ⟨fun _ _ _ _ hdone => (by cases hdone), trivial⟩
  | flushed asked rest ih =>
    refine ⟨fun s sql statement hinsert _ => ?_, fun _ _ _ hnone _ => (by cases hnone), ih⟩
    obtain ⟨rfl, -⟩ := Prod.mk.inj (Option.some.inj (asked.symm.trans hinsert))
    rfl

theorem Flushes.within (h : Flushes session statements left events)
    (tables : ∀ statement ∈ statements, statement.table = ref) :
    ∀ e ∈ events, e.request.Within ref ∧ e.request.Fills ref := by
  have hasked : ∀ {op : Operation} {sql : String} {statement : Insert},
      op.insert? = some (session, sql, statement) → statement.table = ref →
        op.Within ref ∧ op.Fills ref := by
    intro op sql statement asked table
    have htarget := (Operation.target_of_insert asked).2
    refine ⟨fun key hkey => ?_, fun _ => by rw [asked]; rfl⟩
    rw [htarget, table] at hkey
    exact (Option.some.inj hkey).symm
  have hcommit : (Operation.commit session).Idle := rfl
  induction h with
  | stopped coming => simp
  | refused asked =>
    intro e he
    rw [List.mem_singleton.1 he]
    exact hasked asked (tables _ (by simp))
  | flushed asked rest ih =>
    intro e he
    simp only [List.mem_cons] at he
    rcases he with rfl | rfl | he
    · exact hasked asked (tables _ (by simp))
    · exact ⟨hcommit.within, hcommit.fills⟩
    · exact ih (fun later hlater => tables later (by simp [hlater])) e he

end Flushes

/-- An insert of a batch is one request. -/
def Sends {ρ : Type} (insert : Session → List ρ → Run Nat) (into : List ρ → Insert) : Prop :=
  ∀ sessions, ∀ session ∈ sessions, ∀ batch ≠ [], Takes sessions (insert session batch)
    fun events r => ∃ op sql answer, op.insert? = some (session, sql, into batch) ∧
      events = [⟨op, answer⟩] ∧ r.isSome = answer.toOption.isSome

def intoUsers (batch : List User) : Insert :=
  { table := Keyspace.user.table, columns := Keyspace.user.columns, rows := batch.map User.toRow }

def intoArticles (batch : List Article) : Insert :=
  { table := Keyspace.article.table, columns := Keyspace.article.columns
    rows := batch.map Article.toRow }

theorem sends_insertUsers : Sends insertUsers intoUsers := by
  intro sessions session hs batch hbatch
  rw [insertUsers, if_neg (by simpa using hbatch)]
  refine (takes_insert hs (intoUsers batch)).ofAction.imp ?_
  rintro events r ⟨answer, rfl, hanswer⟩
  exact ⟨_, _, answer, rfl, rfl, by rw [← hanswer, Option.isSome_map]⟩

theorem sends_insertArticles : Sends insertArticles intoArticles := by
  intro sessions session hs batch hbatch
  rw [insertArticles, if_neg (by simpa using hbatch)]
  refine (takes_insert hs (intoArticles batch)).ofAction.imp ?_
  rintro events r ⟨answer, rfl, hanswer⟩
  exact ⟨_, _, answer, rfl, rfl, by rw [← hanswer, Option.isSome_map]⟩

theorem sends_insertReads : Sends insertReads storing := by
  intro sessions session hs batch hbatch
  obtain ⟨text, htext, hreading⟩ := reading_storing hbatch
  rw [insertReads, htext]
  refine (takes_execute hs text).ofAction.imp ?_
  rintro events r ⟨answer, rfl, hanswer⟩
  refine ⟨_, text, answer, ?_, rfl, by rw [← hanswer, Option.isSome_map]⟩
  rw [Operation.insert?, hreading]

section Batches

variable {ρ : Type} {sessions : List Session} {session : Session} {insert : Session → List ρ → Run Nat}
  {into : List ρ → Insert}

/-- One insert and its commit, whatever comes after them. -/
structure FlushesOne (session : Session) (statement : Insert) (events : List Event) (done : Bool) :
    Prop where
  fails : done = false → ∀ coming, ∃ left, Flushes session (statement :: coming) left events
  goes : done = true → ∀ coming left rest, Flushes session coming left rest →
    Flushes session (statement :: coming) left (events ++ rest)

theorem takes_flush (sends : Sends insert into) (hs : session ∈ sessions) {batch : List ρ}
    (hbatch : batch ≠ []) : Takes sessions (flush insert session batch)
      fun events r => FlushesOne session (into batch) events r.isSome := by
  have hcommit : ∀ affected : Nat, Takes sessions (do Run.ofAction session.commit; return affected)
      fun events _ => ∃ answer, events = [⟨.commit session, answer⟩] := by
    intro affected
    refine Takes.bind (takes_commit hs).ofAction (fun _ => takes_pure affected) ?_ ?_
    · rintro events ⟨answer, rfl, -⟩
      exact ⟨answer, rfl⟩
    · rintro _ before after r ⟨answer, rfl, -⟩ ⟨rfl, -⟩
      exact ⟨answer, rfl⟩
  refine Takes.bind (sends sessions session hs batch hbatch) hcommit ?_ ?_
  · rintro events ⟨op, sql, answer, asked, rfl, hanswer⟩
    cases answer with
    | error e => exact ⟨fun _ coming => ⟨_, .refused asked⟩, fun hdone => by cases hdone⟩
    | ok answer => cases hanswer
  · rintro n before after r ⟨op, sql, answer, asked, rfl, hanswer⟩ ⟨committed, rfl⟩
    cases answer with
    | error e => cases hanswer
    | ok answer =>
      exact ⟨fun _ coming => ⟨coming, .flushed asked (.stopped coming)⟩,
        fun _ coming left rest hrest => .flushed asked hrest⟩

/-- A batch that is used as a first step. -/
theorem takes_flush_bind {β : Type} (sends : Sends insert into) (hs : session ∈ sessions) {batch : List ρ}
    (hbatch : batch ≠ []) {rest : Nat → Run β} {coming : List Insert}
    (hrest : ∀ affected, Takes sessions (rest affected)
      fun events r => ∃ left, Flushes session coming left events ∧ (r.isSome → left = [])) :
    Takes sessions (flush insert session batch >>= rest)
      fun events r => ∃ left, Flushes session (into batch :: coming) left events ∧ (r.isSome → left = []) := by
  refine Takes.bind (takes_flush sends hs hbatch) hrest ?_ ?_
  · rintro events h
    obtain ⟨left, hleft⟩ := h.fails rfl coming
    exact ⟨left, hleft, fun hsome => by cases hsome⟩
  · rintro affected before after r h ⟨left, hrest, hdone⟩
    exact ⟨left, h.goes rfl coming left after hrest, hdone⟩

/-- Batches after each other, all of them unless one fails. -/
theorem takes_batches (sends : Sends insert into) (hs : session ∈ sessions) {batches : List (List ρ)}
    (full : ∀ batch ∈ batches, batch ≠ []) :
    Takes sessions (forM batches fun batch => do let _ ← flush insert session batch : Run Unit)
      fun events r => ∃ left, Flushes session (batches.map into) left events ∧ (r.isSome → left = []) := by
  induction batches with
  | nil =>
    refine (takes_pure ()).imp ?_
    rintro events r ⟨rfl, -⟩
    exact ⟨[], .stopped [], fun _ => rfl⟩
  | cons batch batches ih =>
    simp only [List.forM_cons, bind_assoc, pure_bind]
    exact takes_flush_bind sends hs (full batch (by simp)) fun _ =>
      ih fun later hlater => full later (by simp [hlater])

theorem takes_insertAll (hs : session ∈ sessions) {batches : List (List Read)}
    (full : ∀ batch ∈ batches, batch ≠ []) (tally : Tally) :
    Takes sessions (Queue.insertAll session batches tally)
      fun events r => ∃ left, Flushes session (batches.map storing) left events ∧ (r.isSome → left = []) := by
  induction batches generalizing tally with
  | nil =>
    refine (takes_pure tally).imp ?_
    rintro events r ⟨rfl, -⟩
    exact ⟨[], .stopped [], fun _ => rfl⟩
  | cons batch batches ih =>
    exact takes_flush_bind sends_insertReads hs (full batch (by simp)) fun affected =>
      ih (fun later hlater => full later (by simp [hlater])) _

end Batches

/-- What a stage does: it may clear its table first, and then inserts these statements, or some of the
first of them. -/
structure Stage (clear : Bool) (ref : TableRef) (statements : List Insert) (events : List Event)
    (complete : Bool) : Prop where
  within : ∀ e ∈ events, e.request.Within ref
  committed : Committed events
  sends : inserts ref events <+: statements
  stores : stored ref events <+: statements
  whole : complete → stored ref events = statements
  split : ∃ trims fills, events = trims ++ fills ∧ (∀ e ∈ trims, e.request.Trims ref) ∧
    ∀ e ∈ fills, e.request.Fills ref
  fills : clear = false → ∀ e ∈ events, e.request.Fills ref

namespace Stage

variable {clear complete : Bool} {ref : TableRef} {statements : List Insert} {events more : List Event}

theorem nil (clear : Bool) (ref : TableRef) (statements : List Insert) :
    Stage clear ref statements [] false where
  within := by simp
  committed := trivial
  sends := List.nil_prefix
  stores := List.nil_prefix
  whole := by simp
  split := ⟨[], [], rfl, by simp, by simp⟩
  fills := by simp

theorem of_flushes {session : Session} {left : List Insert} (h : Flushes session statements left events)
    (tables : ∀ statement ∈ statements, statement.table = ref) (done : complete → left = []) :
    Stage clear ref statements events complete where
  within e he := (h.within tables e he).1
  committed := h.committed
  sends := h.inserts tables
  stores := ⟨left, h.stored_append tables⟩
  whole hcomplete := by
    have hstored := h.stored_append tables
    rwa [done hcomplete, List.append_nil] at hstored
  split := ⟨[], events, rfl, by simp, fun e he => (h.within tables e he).2⟩
  fills _ e he := (h.within tables e he).2

theorem cleared_append (h : Stage clear ref statements events complete)
    (clears : ∀ e ∈ more, e.request.Clears ref ∧ (clear = false → e.request.Idle)) :
    Stage clear ref statements (more ++ events) complete := by
  have hnone : inserts ref more = [] :=
    inserts_eq_nil fun e he => insertInto?_of_trims (clears e he).1.2
  have hnone' : stored ref more = [] := stored_eq_nil hnone
  refine ⟨?_, ?_, ?_, ?_, ?_, ?_, ?_⟩
  · exact List.forall_mem_append.2 ⟨fun e he => (clears e he).1.1, h.within⟩
  · exact (committed_of_none fun e he => (clears e he).1.insert_eq_none).append h.committed
  · rw [inserts_append, hnone]
    exact h.sends
  · rw [stored_append, hnone']
    exact h.stores
  · rw [stored_append, hnone']
    exact h.whole
  · obtain ⟨trims, fills, rfl, htrims, hfills⟩ := h.split
    exact ⟨more ++ trims, fills, (List.append_assoc _ _ _).symm,
      List.forall_mem_append.2 ⟨fun e he => (clears e he).1.2, htrims⟩, hfills⟩
  · exact fun hkeep => List.forall_mem_append.2
      ⟨fun e he => ((clears e he).2 hkeep).fills, h.fills hkeep⟩

theorem idle_append (h : Stage clear ref statements events complete)
    (idle : ∀ e ∈ more, e.request.Idle) : Stage clear ref statements (more ++ events) complete :=
  h.cleared_append fun e he => ⟨(idle e he).clears, fun _ => idle e he⟩

theorem append_idle (h : Stage clear ref statements events complete)
    (idle : ∀ e ∈ more, e.request.Idle) : Stage clear ref statements (events ++ more) complete := by
  have hnone : inserts ref more = [] :=
    inserts_eq_nil fun e he => insertInto?_of_trims (idle e he).trims
  have hnone' : stored ref more = [] := stored_eq_nil hnone
  refine ⟨?_, ?_, ?_, ?_, ?_, ?_, ?_⟩
  · exact List.forall_mem_append.2 ⟨h.within, fun e he => (idle e he).within⟩
  · exact h.committed.append (committed_of_none fun e he => (idle e he).insert_eq_none)
  · rw [inserts_append, hnone, List.append_nil]
    exact h.sends
  · rw [stored_append, hnone', List.append_nil]
    exact h.stores
  · rw [stored_append, hnone', List.append_nil]
    exact h.whole
  · obtain ⟨trims, fills, rfl, htrims, hfills⟩ := h.split
    exact ⟨trims, fills ++ more, List.append_assoc _ _ _, htrims,
      List.forall_mem_append.2 ⟨hfills, fun e he => (idle e he).fills⟩⟩
  · exact fun hkeep => List.forall_mem_append.2
      ⟨h.fills hkeep, fun e he => (idle e he).fills⟩

theorem incomplete (h : Stage clear ref statements events complete) :
    Stage clear ref statements events false :=
  { h with whole := fun hfalse => by cases hfalse }

/-- Of a stage that is through, all inserts were sent. -/
theorem sends_all (h : Stage clear ref statements events complete) (hdone : complete) :
    inserts ref events = statements := by
  have hlength : (stored ref events).length ≤ (inserts ref events).length := stored_sublist.length_le
  rw [h.whole hdone] at hlength
  exact h.sends.eq_of_length (le_antisymm h.sends.length_le hlength)

end Stage

section Load

variable {σ ρ : Type} {sessions : List Session} {session : Session} {insert : Session → List ρ → Run Nat}
  {into : List ρ → Insert} {source : Source σ ρ} {budget : Nat} {b : Batches σ} {ref : TableRef}

/-- How making batches ends, after they were used. -/
theorem takes_made (made : Except Halt (Batches σ)) (count : Nat) :
    Takes sessions (match made with
      | .ok last => return (count, last)
      | .error h => throw h : Run (Nat × Batches σ))
      fun events r => events = [] ∧ ∀ counted, r = some counted → made = .ok counted.2 := by
  cases made with
  | error h =>
    refine (takes_throw h).imp ?_
    rintro events r ⟨rfl, rfl⟩
    exact ⟨rfl, fun _ hsome => by cases hsome⟩
  | ok last =>
    refine (takes_pure _).imp ?_
    rintro events r ⟨rfl, rfl⟩
    exact ⟨rfl, fun counted hsome => by rw [← Option.some.inj hsome]⟩

/-- A stage of all batches of a source. It succeeds only where they can all be made, and then gives what
is left of the source. -/
def Loads (clear : Bool) (ref : TableRef) (into : List ρ → Insert) (source : Source σ ρ) (budget : Nat)
    (b : Batches σ) {α : Type} (last : α → Batches σ) (events : List Event) (r : Option α) : Prop :=
  Stage clear ref ((b.all source budget).1.map into) events r.isSome ∧
    ∀ a, r = some a → (b.all source budget).2 = .ok (last a)

section Steps

variable {α β : Type} {clear : Bool} {last : α → Batches σ} {last' : β → Batches σ}

/-- The table may be cleared before the stage. -/
theorem takes_bind_loads {first : Run α} {rest : α → Run β}
    (h : Only (fun op => op.Clears ref ∧ (clear = false → op.Idle)) sessions first)
    (hrest : ∀ a, Takes sessions (rest a) (Loads clear ref into source budget b last')) :
    Takes sessions (first >>= rest) (Loads clear ref into source budget b last') := by
  refine Takes.bind h hrest ?_ ?_
  · intro events hclears
    have hstage := (Stage.nil clear ref ((b.all source budget).1.map into)).cleared_append hclears
    rw [List.append_nil] at hstage
    exact ⟨hstage, fun _ hsome => by cases hsome⟩
  · rintro a before after r hclears ⟨hstage, hmade⟩
    exact ⟨hstage.cleared_append hclears, hmade⟩

/-- Settings may follow the stage. -/
theorem takes_loads_bind {work : Run α} {rest : α → Run β}
    (h : Takes sessions work (Loads clear ref into source budget b last))
    (hrest : ∀ a, Takes sessions (rest a)
      fun events r => (∀ e ∈ events, e.request.Idle) ∧ ∀ c, r = some c → last' c = last a) :
    Takes sessions (work >>= rest) (Loads clear ref into source budget b last') := by
  refine Takes.bind h hrest ?_ ?_
  · rintro events ⟨hstage, -⟩
    exact ⟨hstage, fun _ hsome => by cases hsome⟩
  · rintro a before after r ⟨hstage, hmade⟩ ⟨hidle, hlast⟩
    refine ⟨?_, fun c hc => (hmade a rfl).trans (congrArg Except.ok (hlast c hc).symm)⟩
    have hdone := hstage.append_idle hidle
    cases r with
    | none => exact hdone.incomplete
    | some c => exact hdone

end Steps

theorem takes_run (sends : Sends insert into) (hs : session ∈ sessions) (fresh : b.accepted = 0)
    (tables : ∀ batch, (into batch).table = ref) (clear : Bool) :
    Takes sessions (b.run source budget fun batch => do let _ ← flush insert session batch)
      (Loads clear ref into source budget b Prod.snd) := by
  have htables : ∀ statement ∈ (b.all source budget).1.map into, statement.table = ref := by
    intro statement hstatement
    obtain ⟨batch, -, rfl⟩ := List.mem_map.1 hstatement
    exact tables batch
  rw [Batches.run_eq _ fresh]
  refine Takes.bind (takes_batches sends hs Batches.ne_nil_of_mem_all) (fun _ => takes_made _ _) ?_ ?_
  · rintro events ⟨left, hflushes, -⟩
    exact ⟨.of_flushes hflushes htables fun hsome => (by cases hsome), fun _ hsome => by cases hsome⟩
  · rintro u before after r ⟨left, hflushes, hdone⟩ ⟨rfl, hmade⟩
    rw [List.append_nil]
    exact ⟨.of_flushes hflushes htables fun _ => hdone rfl, hmade⟩

theorem takes_loadTable (sends : Sends insert into) (hs : session ∈ sessions) (fresh : b.accepted = 0)
    (tables : ∀ batch, (into batch).table = ref) (clear : Bool) (policy : RetryPolicy) :
    Takes sessions (loadTable session ref clear policy source insert budget b)
      (Loads clear ref into source budget b Loaded.source) := by
  have hoptimize : Only (fun op => op.Clears ref ∧ (clear = false → op.Idle)) sessions
      (liftM (optimize session false) : Run Unit) :=
    (only_optimize hs false).imp fun op hidle => ⟨hidle.clears, fun _ => hidle⟩
  rw [loadTable_eq]
  refine takes_bind_loads (only_clearing hs clear ref policy) fun truncated =>
    takes_bind_loads hoptimize fun _ =>
      takes_loads_bind (takes_run sends hs fresh tables clear) fun counted => ?_
  refine Takes.bind (only_restore hs) (fun _ => takes_pure _) ?_ ?_
  · exact fun events hidle => ⟨hidle, fun _ hsome => by cases hsome⟩
  · rintro u before after r hidle ⟨rfl, rfl⟩
    rw [List.append_nil]
    exact ⟨hidle, fun loaded hsome => by rw [← Option.some.inj hsome]⟩

/-- A stage in a session of its own. -/
theorem takes_withSession_loads {α : Type} {clear : Bool} {last : α → Batches σ} {work : Session → Run α}
    (h : ∀ s, Takes (s :: sessions) (work s) (Loads clear ref into source budget b last)) :
    Takes sessions (Run.withSession work) (Loads clear ref into source budget b last) := by
  refine Takes.withSession h fun s events r ending hloads hending => ?_
  have hopen : ∀ e ∈ [(⟨.openSession, .ok (.opened s)⟩ : Event)], e.request.Idle := by
    simp [Operation.Idle, Operation.target?]
  have hclose : ∀ e ∈ ending, e.request.Idle := fun e he => by
    rw [hending e he]
    simp [Operation.Idle, Operation.target?]
  exact ⟨(hloads.1.idle_append hopen).append_idle hclose, hloads.2⟩

end Load

end Seeding
end ReadingBench

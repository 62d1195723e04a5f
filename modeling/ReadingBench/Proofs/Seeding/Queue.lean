import ReadingBench.Proofs.Seeding.Collect
import ReadingBench.Proofs.Store.Action
import ReadingBench.Seeding.Seed

namespace ReadingBench.Seeding

open Sql Store

/-- What has been inserted and committed. -/
structure Tally where
  batches : Nat := 0
  accepted : Nat := 0
  affected : Nat := 0

def Tally.add (t : Tally) (batch : List Read) (affected : Nat) : Tally :=
  ⟨t.batches + 1, t.accepted + batch.length, t.affected + affected⟩

/-- The counters of the inserter and the source as the worker left it. -/
abbrev Counted := Tally × Batches Reading

def Counted.outcome (c : Counted) : ReadOutcome := ⟨c.1.batches, c.1.affected, c.2⟩

namespace Queue

inductive Worker where
  | making (b : Batches Reading)
  /-- A batch is made, and waits for a place in the queue. -/
  | holding (batch : List Read) (rest : Batches Reading)
  | ended (made : Except Halt (Batches Reading))

inductive Inserter where
  | waiting
  | inserting (batch : List Read)
  | committing (batch : List Read) (affected : Nat)
  /-- It no longer receives. -/
  | stopped (inserted : Except Halt Unit)

structure State where
  worker : Worker
  queue : List (List Read)
  inserter : Inserter
  tally : Tally
  server : Server

/-- What a halt of the worker is reported as. -/
def taskHalt : Halt → Halt
  | .outOfRange => .failed .task
  | halt => halt

/-- A worker that left the calendar counts as a failed task. -/
def joined : Except Halt (Batches Reading) → Except Halt (Batches Reading)
  | .error .outOfRange => .error (.failed .task)
  | made => made

/-- What the two have come to, once both have stopped. The inserter's error goes first. -/
def State.result? (p : State) : Option (Except Halt Counted) :=
  match p.inserter, p.worker with
  | .stopped inserted, .ended made => some (do
    inserted
    return (p.tally, ← joined made))
  | _, _ => none

section Steps

variable (source : Source Reading Read) (budget depth : Nat) (session : Session)

/-- One step of the worker or of the inserter. -/
inductive Step (p : State) : State → Prop where
  | make {b rest : Batches Reading} {batch : List Read} (worker : p.worker = .making b)
      (pull : b.pull source budget = .batch batch rest) :
      Step p { p with worker := .holding batch rest }
  | finish {b : Batches Reading} {pulled : Pull Reading Read} (worker : p.worker = .making b)
      (pull : b.pull source budget = pulled) (last : ∀ batch rest, pulled ≠ .batch batch rest) :
      Step p { p with worker := .ended (b.ending pulled) }
  | send {rest : Batches Reading} {batch : List Read} (worker : p.worker = .holding batch rest)
      (open_ : ∀ inserted, p.inserter ≠ .stopped inserted) (room : p.queue.length < depth) :
      Step p { p with worker := .making rest, queue := p.queue ++ [batch] }
  /-- Nobody receives any more, so the worker stops with what it has made. -/
  | giveUp {rest : Batches Reading} {batch : List Read} {inserted : Except Halt Unit}
      (worker : p.worker = .holding batch rest) (gone : p.inserter = .stopped inserted) :
      Step p { p with worker := .ended (.ok rest) }
  | receive {batch : List Read} {queue : List (List Read)} (inserter : p.inserter = .waiting)
      (next : p.queue = batch :: queue) :
      Step p { p with queue, inserter := .inserting batch }
  /-- The worker is gone and has left nothing in the queue. -/
  | drained {made : Except Halt (Batches Reading)} (inserter : p.inserter = .waiting)
      (empty : p.queue = []) (worker : p.worker = .ended made) :
      Step p { p with inserter := .stopped (.ok ()) }
  | insert {batch : List Read} {affected : Nat} {server : Server}
      (inserter : p.inserter = .inserting batch)
      (done : insertReads session batch p.server = (.ok affected, server)) :
      Step p { p with inserter := .committing batch affected, server }
  /-- What is left in the queue is lost with it. -/
  | insertFails {batch : List Read} {h : Halt} {server : Server}
      (inserter : p.inserter = .inserting batch)
      (failed : insertReads session batch p.server = (.error h, server)) :
      Step p { p with queue := [], inserter := .stopped (.error h), server }
  | commit {batch : List Read} {affected : Nat} {server : Server}
      (inserter : p.inserter = .committing batch affected)
      (done : Run.ofAction session.commit p.server = (.ok (), server)) :
      Step p { p with inserter := .waiting, tally := p.tally.add batch affected, server }
  | commitFails {batch : List Read} {affected : Nat} {h : Halt} {server : Server}
      (inserter : p.inserter = .committing batch affected)
      (failed : Run.ofAction session.commit p.server = (.error h, server)) :
      Step p { p with queue := [], inserter := .stopped (.error h), server }

abbrev Steps : State → State → Prop := Relation.ReflTransGen (Step source budget depth session)

end Steps

def start (b : Batches Reading) (server : Server) : State := ⟨.making b, [], .waiting, {}, server⟩

variable {source : Source Reading Read} {budget depth : Nat} {session : Session}

/-- Five steps for a batch that is not made yet. -/
def Worker.weight : Worker → Nat
  | making b => 5 * b.remaining + 1
  | holding _ rest => 5 * rest.remaining + 5
  | ended _ => 0

def Inserter.weight : Inserter → Nat
  | waiting => 1
  | inserting _ => 3
  | committing _ _ => 2
  | stopped _ => 0

/-- A bound on the steps that are still to come. -/
def State.weight (p : State) : Nat := p.worker.weight + 3 * p.queue.length + p.inserter.weight

theorem weight_step {p q : State} (h : Step source budget depth session p q) : q.weight < p.weight := by
  cases h with
  | make worker pull =>
    obtain ⟨-, hne, hcount⟩ := Batches.offered_of_pull pull
    have hpos := List.length_pos_of_ne_nil hne
    simp only [State.weight, worker, Worker.weight]
    omega
  | finish worker _ _ =>
    simp only [State.weight, worker, Worker.weight]
    omega
  | send worker _ _ =>
    simp only [State.weight, worker, Worker.weight, List.length_append, List.length_singleton]
    omega
  | giveUp worker _ =>
    simp only [State.weight, worker, Worker.weight]
    omega
  | receive inserter next =>
    simp only [State.weight, inserter, next, Inserter.weight, List.length_cons]
    omega
  | drained inserter _ _ =>
    simp only [State.weight, inserter, Inserter.weight]
    omega
  | insert inserter _ =>
    simp only [State.weight, inserter, Inserter.weight]
    omega
  | insertFails inserter _ =>
    simp only [State.weight, inserter, Inserter.weight, List.length_nil]
    omega
  | commit inserter _ =>
    simp only [State.weight, inserter, Inserter.weight]
    omega
  | commitFails inserter _ =>
    simp only [State.weight, inserter, Inserter.weight, List.length_nil]
    omega

theorem wellFounded_step : WellFounded fun q p => Step source budget depth session p q :=
  Subrelation.wf weight_step (measure State.weight).wf

/-- As long as one of the two has not stopped, one of them can take a step. -/
theorem exists_step (hdepth : 0 < depth) {p : State} (h : p.result? = none) :
    ∃ q, Step source budget depth session p q := by
  have hmaking : ∀ b, p.worker = .making b → ∃ q, Step source budget depth session p q := by
    intro b hworker
    cases hpull : b.pull source budget with
    | batch batch rest => exact ⟨_, .make hworker hpull⟩
    | _ => exact ⟨_, .finish hworker hpull (by simp)⟩
  cases hinserter : p.inserter with
  | inserting batch =>
    rcases hrun : insertReads session batch p.server with ⟨e | affected, server⟩
    · exact ⟨_, .insertFails hinserter hrun⟩
    · exact ⟨_, .insert hinserter hrun⟩
  | committing batch affected =>
    rcases hrun : Run.ofAction session.commit p.server with ⟨e | done, server⟩
    · exact ⟨_, .commitFails hinserter hrun⟩
    · exact ⟨_, .commit hinserter hrun⟩
  | waiting =>
    cases hqueue : p.queue with
    | cons batch queue => exact ⟨_, .receive hinserter hqueue⟩
    | nil =>
      cases hworker : p.worker with
      | making b => exact hmaking b hworker
      | holding batch rest =>
        exact ⟨_, .send hworker (by simp [hinserter]) (by simpa [hqueue] using hdepth)⟩
      | ended made => exact ⟨_, .drained hinserter hqueue hworker⟩
  | stopped inserted =>
    cases hworker : p.worker with
    | making b => exact hmaking b hworker
    | holding batch rest => exact ⟨_, .giveUp hworker hinserter⟩
    | ended made => simp [State.result?, hinserter, hworker] at h

/-- Inserts and commits batch after batch. -/
def insertAll (session : Session) : List (List Read) → Tally → Run Tally
  | [], t => return t
  | batch :: rest, t => do
    let affected ← flush insertReads session batch
    insertAll session rest (t.add batch affected)

/-- The batches that the worker is still to send, and how it ends. -/
def Worker.coming (source : Source Reading Read) (budget : Nat) :
    Worker → List (List Read) × Except Halt (Batches Reading)
  | making b => b.all source budget
  | holding batch rest => (batch :: (rest.all source budget).1, (rest.all source budget).2)
  | ended made => ([], made)

/-- The inserter's work from here on, given the batches that it is still to receive. -/
def Inserter.work (session : Session) (coming : List (List Read)) (t : Tally) : Inserter → Run Tally
  | waiting => insertAll session coming t
  | inserting batch => do
    let affected ← flush insertReads session batch
    insertAll session coming (t.add batch affected)
  | committing batch affected => do
    Run.ofAction session.commit
    insertAll session coming (t.add batch affected)
  | stopped (.ok _) => return t
  | stopped (.error h) => throw h

/-- The run from here on, if all batches were there at once. -/
def State.outlook (source : Source Reading Read) (budget : Nat) (session : Session) (p : State) :
    Except Halt Counted × Server :=
  (do
    let (batches, made) := p.worker.coming source budget
    let t ← p.inserter.work session (p.queue ++ batches) p.tally
    return (t, ← liftM (joined made)) : Run Counted) p.server

/-- The inserter stops without an error only after the worker. -/
def State.Settled (p : State) : Prop :=
  p.inserter = .stopped (.ok ()) → ∃ made, p.worker = .ended made

theorem settled_step {p q : State} (h : Step source budget depth session p q) (hp : p.Settled) :
    q.Settled := by
  intro hq
  cases h with
  | make worker _ =>
    obtain ⟨made, hended⟩ := hp hq
    rw [worker] at hended
    cases hended
  | finish worker _ _ =>
    obtain ⟨made, hended⟩ := hp hq
    rw [worker] at hended
    cases hended
  | send worker _ _ =>
    obtain ⟨made, hended⟩ := hp hq
    rw [worker] at hended
    cases hended
  | giveUp worker _ =>
    obtain ⟨made, hended⟩ := hp hq
    rw [worker] at hended
    cases hended
  | receive _ _ => cases hq
  | drained _ _ worker => exact ⟨_, worker⟩
  | insert _ _ => cases hq
  | insertFails _ _ => cases hq
  | commit _ _ => cases hq
  | commitFails _ _ => cases hq

theorem outlook_step {p q : State} (h : Step source budget depth session p q) (hp : p.Settled) :
    q.outlook source budget session = p.outlook source budget session := by
  cases h with
  | make worker pull =>
    simp only [State.outlook, worker, Worker.coming, Batches.all_of_batch pull]
  | finish worker pull last =>
    simp only [State.outlook, worker, Worker.coming, Batches.all_of_ending pull last]
  | send worker _ _ =>
    simp only [State.outlook, worker, Worker.coming, List.append_assoc, List.singleton_append]
  | @giveUp rest batch inserted worker gone =>
    cases inserted with
    | error h => simp only [State.outlook, gone, Inserter.work, bind_apply, throw_apply]
    | ok done =>
      obtain ⟨made, hended⟩ := hp gone
      rw [worker] at hended
      cases hended
  | receive inserter next =>
    simp only [State.outlook, inserter, next, Inserter.work, List.cons_append, insertAll]
  | drained inserter empty worker =>
    simp only [State.outlook, inserter, empty, worker, Inserter.work, Worker.coming, List.nil_append,
      insertAll]
  | @insert batch affected server inserter done =>
    simp only [State.outlook, inserter, Inserter.work, flush, bind_apply, done, pure_apply]
    rcases Run.ofAction session.commit server with ⟨_ | _, _⟩ <;> rfl
  | insertFails inserter failed =>
    simp only [State.outlook, inserter, Inserter.work, flush, bind_apply, failed, throw_apply]
  | commit inserter done =>
    simp only [State.outlook, inserter, Inserter.work, bind_apply, done]
  | commitFails inserter failed =>
    simp only [State.outlook, inserter, Inserter.work, bind_apply, failed, throw_apply]

theorem outlook_steps {p q : State} (h : Steps source budget depth session p q) (hp : p.Settled) :
    q.Settled ∧ q.outlook source budget session = p.outlook source budget session := by
  induction h with
  | refl => exact ⟨hp, rfl⟩
  | tail _ hstep ih =>
    obtain ⟨hsettled, houtlook⟩ := ih
    exact ⟨settled_step hstep hsettled, (outlook_step hstep hsettled).trans houtlook⟩

/-- Where both have stopped there is nothing more to come. -/
theorem outlook_of_result {p : State} {result : Except Halt Counted} (h : p.result? = some result) :
    p.outlook source budget session = (result, p.server) := by
  unfold State.result? at h
  split at h
  case h_2 => cases h
  case h_1 inserted made hinserter hworker =>
    obtain rfl := Option.some.inj h
    cases inserted with
    | error h =>
      simp only [State.outlook, hinserter, Inserter.work, bind_apply, throw_apply]
      rfl
    | ok done =>
      simp only [State.outlook, hinserter, hworker, Inserter.work, Worker.coming, bind_apply,
        pure_apply, lift_apply]
      cases joined made <;> rfl

/-- Whatever the order of the steps, the end is the one foreseen at the start. -/
theorem result_of_steps {b : Batches Reading} {server : Server} {p : State}
    (h : Steps source budget depth session (start b server) p) {result : Except Halt Counted}
    (hresult : p.result? = some result) :
    (result, p.server) = (start b server).outlook source budget session := by
  have hstart : (start b server).Settled := fun h => by cases h
  exact (outlook_of_result hresult).symm.trans (outlook_steps h hstart).2

/-- From every state some order of steps leads to an end. -/
theorem exists_result (hdepth : 0 < depth) (p : State) : ∃ q result,
    Steps source budget depth session p q ∧ q.result? = some result := by
  have hwf : WellFounded fun q p => Step source budget depth session p q := wellFounded_step
  induction p using hwf.induction with
  | _ p ih =>
    cases hresult : p.result? with
    | some result => exact ⟨p, result, .refl, hresult⟩
    | none =>
      obtain ⟨q, hstep⟩ := exists_step hdepth hresult
      obtain ⟨last, result, hsteps, hlast⟩ := ih q hstep
      exact ⟨last, result, .head hstep hsteps, hlast⟩

theorem insertAll_eq_ok {batches : List (List Read)} {t t' : Tally} {server next : Server}
    (h : insertAll session batches t server = (.ok t', next)) :
    t'.batches = t.batches + batches.length ∧ t'.accepted = t.accepted + batches.flatten.length := by
  induction batches generalizing t server with
  | nil =>
    obtain ⟨rfl, -⟩ := pure_apply_eq_ok.1 h
    simp
  | cons batch batches ih =>
    obtain ⟨affected, last, -, h⟩ := bind_apply_eq_ok.1 h
    obtain ⟨hbatches, haccepted⟩ := ih h
    simp only [Tally.add] at hbatches haccepted
    simp only [List.length_cons, List.flatten_cons, List.length_append]
    omega

/-- Work that never leaves its range. -/
def InRange {α : Type} (work : Run α) : Prop :=
  ∀ server h next, work server = (.error h, next) → h ≠ .outOfRange

theorem inRange_pure {α : Type} (a : α) : InRange (pure a) := by
  intro server h next hrun
  cases (Prod.mk.inj hrun).1

theorem inRange_ofAction {α : Type} (action : Store.Action α) : InRange (Run.ofAction action) := by
  intro server h next hrun
  unfold Run.ofAction at hrun
  rcases hact : action server with ⟨e | a, last⟩
  · rw [hact] at hrun
    rw [← Except.error.inj (Prod.mk.inj hrun).1]
    simp
  · rw [hact] at hrun
    cases (Prod.mk.inj hrun).1

theorem InRange.bind {α β : Type} {work : Run α} (hwork : InRange work) {rest : α → Run β}
    (hrest : ∀ a, InRange (rest a)) : InRange (work >>= rest) := by
  intro server h next hrun
  rw [bind_apply] at hrun
  rcases hfirst : work server with ⟨e | a, last⟩
  · rw [hfirst] at hrun
    rw [← Except.error.inj (Prod.mk.inj hrun).1]
    exact hwork server e last hfirst
  · rw [hfirst] at hrun
    exact hrest a last h next hrun

theorem inRange_flush (batch : List Read) : InRange (flush insertReads session batch) := by
  have hinsert : InRange (insertReads session batch) := by
    unfold insertReads
    split
    · exact inRange_ofAction _
    · exact inRange_pure 0
  exact hinsert.bind fun affected => (inRange_ofAction _).bind fun _ => inRange_pure affected

theorem inRange_insertAll (batches : List (List Read)) (t : Tally) :
    InRange (insertAll session batches t) := by
  induction batches generalizing t with
  | nil => exact inRange_pure t
  | cons batch batches ih => exact (inRange_flush batch).bind fun affected => ih (t.add batch affected)

/-- Inserts a batch and adds to the count that the inline path keeps. -/
def tallied (session : Session) (batch : List Read) : StateT Nat Run Unit := do
  let affected ← flush insertReads session batch
  modify (· + affected)

theorem run_tallied (batch : List Read) (n : Nat) : (tallied session batch).run n =
    (do return ((), n + (← flush insertReads session batch))) := by
  simp [tallied]

theorem run_forM_tallied (session : Session) (batches : List (List Read)) (t : Tally) :
    (forM batches (tallied session)).run t.affected =
      (do return ((), (← insertAll session batches t).affected)) := by
  induction batches generalizing t with
  | nil => rfl
  | cons batch batches ih =>
    rw [List.forM_cons, StateT.run_bind, run_tallied, insertAll]
    simp only [bind_assoc, pure_bind]
    congr 1
    funext affected
    exact ih (t.add batch affected)

theorem loadInline_eq (s : Seeding) (session : Session) (source : ReadSource) :
    s.loadInline session source = (do
      let t ← insertAll session (s.readBatches.all source.offer s.budget).1 {}
      let last ← liftM (s.readBatches.all source.offer s.budget).2
      return Counted.outcome (t, last)) := by
  have hfresh : s.readBatches.accepted = 0 := rfl
  have hload : s.loadInline session source = (do
      let done ← (s.readBatches.run source.offer s.budget (tallied session)).run 0
      return ⟨done.1.1, done.2, done.1.2⟩) := rfl
  rw [hload, Batches.run_eq _ hfresh]
  generalize s.readBatches.all source.offer s.budget = all
  obtain ⟨batches, made⟩ := all
  have hforM := run_forM_tallied session batches {}
  dsimp only at hforM ⊢
  rw [StateT.run_bind, hforM]
  funext server
  simp only [bind_apply, lift_apply]
  rcases hrun : insertAll session batches {} server with ⟨h | t, next⟩
  · rfl
  · obtain ⟨hbatches, -⟩ := insertAll_eq_ok hrun
    cases made with
    | error h => rfl
    | ok last =>
      rw [← Nat.zero_add batches.length, ← hbatches]
      rfl

/-- What is foreseen at the start is what the queued path gives. -/
theorem outlook_start {s : Seeding} (hmax : s.config.readQueueDepth.toNat ≤ maxQueueDepth)
    (session : Session) (source : ReadSource) {server after : Server} {result : Except Halt Counted}
    (h : (start s.readBatches server).outlook source.offer s.budget session = (result, after)) :
    s.loadQueued session source server = (result.map Counted.outcome, after) := by
  have hsmall : ¬maxQueueDepth < s.config.readQueueDepth.toNat := by omega
  simp only [State.outlook, start, Inserter.work, Worker.coming, List.nil_append, bind_apply,
    lift_apply] at h
  simp only [loadQueued, hsmall, if_false, loadInline_eq, bind_apply, lift_apply]
  rcases hrun : insertAll session (s.readBatches.all source.offer s.budget).1 {} server with
    ⟨halt | t, next⟩
  · have hrange := inRange_insertAll _ _ _ _ _ hrun
    rw [hrun] at h
    obtain ⟨rfl, rfl⟩ := Prod.mk.inj h
    cases halt with
    | outOfRange => exact absurd rfl hrange
    | failed e => rfl
    | unfinished => rfl
  · rw [hrun] at h
    cases hmade : (s.readBatches.all source.offer s.budget).2 with
    | ok last =>
      rw [hmade] at h
      obtain ⟨rfl, rfl⟩ := Prod.mk.inj h
      rfl
    | error halt =>
      rw [hmade] at h
      cases halt <;> (obtain ⟨rfl, rfl⟩ := Prod.mk.inj h; rfl)

/-- The inserter has counted the records that the source has. -/
theorem accepted_of_outlook {b last : Batches Reading} (fresh : b.accepted = 0) {server after : Server}
    {t : Tally}
    (h : (start b server).outlook source budget session = (.ok (t, last), after)) :
    t.accepted = last.accepted := by
  simp only [State.outlook, start, Inserter.work, Worker.coming, List.nil_append] at h
  obtain ⟨t', next, hrun, h⟩ := bind_apply_eq_ok.1 h
  obtain ⟨last', next', hlast, h⟩ := bind_apply_eq_ok.1 h
  obtain ⟨rfl, rfl⟩ := Prod.mk.inj (pure_apply_eq_ok.1 h).1
  rw [lift_apply] at hlast
  have hmade : (b.all source budget).2 = .ok last' := by
    have hjoined := (Prod.mk.inj hlast).1
    cases hall : (b.all source budget).2 with
    | ok b => rwa [hall] at hjoined
    | error halt =>
      rw [hall] at hjoined
      cases halt <;> cases hjoined
  have hcounted := (insertAll_eq_ok hrun).2
  have hoffered := (Batches.pulls_of_all hmade).1.drawn.offered.accepted_eq
  rw [fresh] at hoffered
  exact hcounted.trans hoffered.symm

end Queue

open Queue

/-- A run of the phase of reads with a queue, whatever the order of its steps, has come to this. -/
inductive Ends (s : Seeding) (session : Session) (index : ReferentialIndex) (server : Server) :
    Except Halt ReadOutcome → Server → Prop where
  | refused {h : Halt} (nobody : s.readSource index = .error h) :
      Ends s session index server (.error h) server
  | joined {source : ReadSource} {p : State} {result : Except Halt Counted}
      (source_ok : s.readSource index = .ok source)
      (steps : Steps source.offer s.budget s.config.readQueueDepth.toNat session
        (start s.readBatches server) p)
      (stopped : p.result? = some result) :
      Ends s session index server (result.map Counted.outcome) p.server

/-- The same run without a queue. -/
def inline (s : Seeding) : Seeding := { s with config := { s.config with readQueueDepth := 0 } }

variable {s : Seeding} {session : Session} {index : ReferentialIndex} {server : Server}

theorem loadReads_apply (hdepth : 0 < s.config.readQueueDepth.toNat) :
    s.loadReads session index server =
      match s.readSource index with
      | .error h => (.error h, server)
      | .ok source => s.loadQueued session source server := by
  have hqueue : s.config.readQueueDepth ≠ 0 := by
    rintro hzero
    rw [hzero] at hdepth
    cases hdepth
  rw [loadReads, bind_apply, lift_apply]
  cases s.readSource index with
  | error h => rfl
  | ok source => simp only [if_neg hqueue]

/-- All orders of steps come to the result of the queued path, also where the worker fails. -/
theorem Ends.eq_loadReads (hdepth : 0 < s.config.readQueueDepth.toNat)
    (hmax : s.config.readQueueDepth.toNat ≤ maxQueueDepth) {result : Except Halt ReadOutcome}
    {after : Server} (h : s.Ends session index server result after) :
    (result, after) = s.loadReads session index server := by
  rw [loadReads_apply hdepth]
  cases h with
  | refused nobody => rw [nobody]
  | joined source_ok steps stopped =>
    rw [source_ok]
    exact (outlook_start hmax session _ (result_of_steps steps stopped).symm).symm

theorem exists_ends (hdepth : 0 < s.config.readQueueDepth.toNat) :
    ∃ result after, s.Ends session index server result after := by
  cases hsource : s.readSource index with
  | error h => exact ⟨_, _, .refused hsource⟩
  | ok source =>
    obtain ⟨p, result, hsteps, hresult⟩ := exists_result hdepth (start s.readBatches server)
    exact ⟨_, _, .joined hsource hsteps hresult⟩

/-- The worker makes all its batches, for the source that the index gives. -/
def Makes (s : Seeding) (index : ReferentialIndex) : Prop :=
  ∀ source, s.readSource index = .ok source →
    ∃ made, (s.readBatches.run source.offer s.budget fun _ => pure () :
      Except Halt (Nat × Batches Reading)) = .ok made

theorem loadReads_inline (hdepth : 0 < s.config.readQueueDepth.toNat)
    (hmax : s.config.readQueueDepth.toNat ≤ maxQueueDepth) (makes : s.Makes index) :
    s.loadReads session index server = s.inline.loadReads session index server := by
  have hinline : s.inline.loadReads session index server =
      match s.readSource index with
      | .error h => (.error h, server)
      | .ok source => s.loadInline session source server := by
    rw [loadReads, bind_apply, lift_apply]
    have hsource : s.inline.readSource index = s.readSource index := rfl
    rw [hsource]
    cases s.readSource index <;> rfl
  rw [loadReads_apply hdepth, hinline]
  cases hsource : s.readSource index with
  | error h => rfl
  | ok source =>
    have hsmall : ¬maxQueueDepth < s.config.readQueueDepth.toNat := by omega
    have hfresh : s.readBatches.accepted = 0 := rfl
    obtain ⟨⟨count, last⟩, hmade⟩ := makes source hsource
    have hlast := Batches.all_of_run hfresh hmade
    simp only [loadQueued, hsmall, if_false, loadInline_eq, bind_apply, lift_apply, hlast]
    rcases hrun : insertAll session (s.readBatches.all source.offer s.budget).1 {} server with
      ⟨halt | t, next⟩
    · have hrange := inRange_insertAll _ _ _ _ _ hrun
      cases halt with
      | outOfRange => exact absurd rfl hrange
      | failed e => rfl
      | unfinished => rfl
    · rfl

/-- With a queue and a worker that makes all its batches, every order of steps comes to an end, and to
the one of the path without a queue: the same counters or the same error, and the same server. -/
theorem queued_eq_inline (s : Seeding) (session : Session) (index : ReferentialIndex) (server : Server)
    (depth_pos : 0 < s.config.readQueueDepth.toNat)
    (depth_le : s.config.readQueueDepth.toNat ≤ maxQueueDepth) (makes : s.Makes index) :
    (∃ result after, s.Ends session index server result after) ∧
      (∀ result after, s.Ends session index server result after →
        (result, after) = s.loadReads session index server ∧
          (result, after) = s.inline.loadReads session index server) ∧
      ∀ source, s.readSource index = .ok source →
        (WellFounded fun q p => Step source.offer s.budget s.config.readQueueDepth.toNat session p q) ∧
        ∀ p, Steps source.offer s.budget s.config.readQueueDepth.toNat session
            (start s.readBatches server) p →
          (p.result? = none →
            ∃ q, Step source.offer s.budget s.config.readQueueDepth.toNat session p q) ∧
          ∀ t last, p.result? = some (.ok (t, last)) → t.accepted = last.accepted := by
  refine ⟨exists_ends depth_pos, ?_, ?_⟩
  · intro result after h
    have hloaded := h.eq_loadReads depth_pos depth_le
    exact ⟨hloaded, hloaded.trans (loadReads_inline depth_pos depth_le makes)⟩
  · intro source _
    refine ⟨wellFounded_step, fun p hsteps => ⟨exists_step depth_pos, fun t last hresult => ?_⟩⟩
    have hfresh : s.readBatches.accepted = 0 := rfl
    exact accepted_of_outlook hfresh (result_of_steps hsteps hresult).symm

/-- Three reads in batches of two, one of which can wait. -/
def queuedThree : Seeding where
  config := { users := 2, articles := 1, reads := 3, readBatchSize := 2, spreadDays := 1,
              rngSeed := some 7, readQueueDepth := 1 }
  retry := {}
  entropy := 0
  budget := 10

/-- A server whose next statement fails. -/
def failing : Server := (Server.ofSpecs (fun _ => defaultBaseTime) standardSpecs).failNext .sessionClosed

theorem queued_eq_inline_three :
    (∃ result after, queuedThree.Ends .root .empty failing result after ∧
      (result, after) = queuedThree.inline.loadReads .root .empty failing) ∧
    (queuedThree.inline.loadReads .root .empty failing).1.toOption.isNone := by
  have makes : queuedThree.Makes .empty := by
    intro source hsource
    have hreads : queuedThree.readSource .empty =
        .ok ⟨defaultBaseTime, 2, 1, 3, 1, .empty⟩ := rfl
    obtain rfl := Except.ok.inj (hreads.symm.trans hsource)
    exact Outcome.exists_eq_ok (by decide +kernel)
  obtain ⟨⟨result, after, hends⟩, hsame, -⟩ :=
    queued_eq_inline queuedThree .root .empty failing (by decide) (by decide) makes
  exact ⟨⟨result, after, hends, (hsame result after hends).2⟩, by decide +kernel⟩

end ReadingBench.Seeding

import ReadingBench.Proofs.Store.Failure
import ReadingBench.Proofs.Store.Lasting
import ReadingBench.Proofs.Store.Run
import ReadingBench.Proofs.Store.Written

namespace ReadingBench.Store

open Sql Server

/-- No failure waits, and the session is open. -/
structure Server.Calm (session : Session) (server : Server) : Prop where
  failures : server.failures = []
  opened : session.isClosed server = false

/-- Two servers with the same tables. -/
def Server.Alike (server other : Server) : Prop := ∀ key : String, server.tables[key]? = other.tables[key]?

/-- Work that leaves a calm server calm, whether it fails or not. -/
def KeepsCalm (session : Session) {ε α : Type} (work : ExceptT ε (StateM Server) α) : Prop :=
  ∀ server, Calm session server → Calm session (work server).2

section Keeps

variable {session : Session} {ε α β : Type}

theorem KeepsCalm.after {work : ExceptT ε (StateM Server) α} (h : KeepsCalm session work)
    {server next : Server} {result : Except ε α} (calm : Calm session server)
    (hwork : work server = (result, next)) : Calm session next := by
  have hafter := h server calm
  rw [hwork] at hafter
  exact hafter

theorem Server.Calm.openNew {server : Server} (calm : Calm session server) :
    Calm session (Session.openNew server).2 :=
  ⟨calm.failures, Session.isClosed_openNew calm.opened⟩

theorem close_failures (other : Session) (server : Server) :
    (other.close server).failures = server.failures := by
  rw [Session.close_eq]

theorem Server.Calm.close {server : Server} (calm : Calm session server) {other : Session}
    (hother : other.number ≠ session.number) : Calm session (other.close server) :=
  ⟨(close_failures other server).trans calm.failures,
    (Session.isClosed_close hother).trans calm.opened⟩

/-- What lasts of a calm server: no statement brings a failure, and sessions that come and go leave the
session open. -/
def staysCalm (session : Session) : Lasting where
  holds server next := Calm session server → Calm session next
  refl _ calm := calm
  trans h h' calm := h' (h calm)
  statement hclosed _ hsuffix calm :=
    ⟨List.suffix_nil.1 (calm.failures ▸ hsuffix), by rw [Session.isClosed, hclosed]; exact calm.opened⟩

instance (session : Session) : (staysCalm session).Spans where
  opened h calm := h calm.openNew
  closed h calm := (h calm.openNew).close (Session.number_openNew_ne calm.opened)

/-- What no work can break keeps a server calm. -/
theorem Respects.keepsCalm {work : ExceptT ε (StateM Server) α} (h : Respects (staysCalm session) work) :
    KeepsCalm session work := h

/-- Failures that do not wait before the work do not wait after it. -/
def staysQuiet : Lasting where
  holds server next := server.failures = [] → next.failures = []
  refl _ quiet := quiet
  trans h h' quiet := h' (h quiet)
  statement _ _ hsuffix quiet := List.suffix_nil.1 (quiet ▸ hsuffix)

instance : staysQuiet.Spans where
  opened h quiet := h quiet
  closed h quiet := (close_failures _ _).trans (h quiet)

theorem Respects.quiet {work : ExceptT ε (StateM Server) α} (h : Respects staysQuiet work)
    {server : Server} (quiet : server.failures = []) : (work server).2.failures = [] := h server quiet

end Keeps

section Statements

variable {session : Session} {server other : Server}

theorem Server.calm_openNew (h : server.failures = []) :
    Calm (Session.openNew server).1 (Session.openNew server).2 :=
  ⟨h, Session.isClosed_openNew_self server⟩

/-- A statement that succeeded was let in, so its server was calm. -/
theorem Server.Calm.of_receive_eq_ok {sql : String} {next : Server} {u : Unit}
    (h : session.receive sql server = (.ok u, next)) : Calm session server := by
  rw [Session.receive_apply, Action.begin_apply] at h
  cases hopened : session.isClosed server with
  | true =>
    rw [hopened, if_pos rfl] at h
    cases (Prod.mk.inj h).1
  | false =>
    rw [hopened, if_neg Bool.false_ne_true] at h
    cases hfailures : server.failures with
    | nil => exact ⟨hfailures, hopened⟩
    | cons e rest =>
      rw [hfailures] at h
      cases (Prod.mk.inj h).1

theorem Server.Calm.of_select_eq_ok {statement : Select} {next : Server} {rows : List Row}
    (h : session.select statement server = (.ok rows, next)) : Calm session server := by
  rw [Session.select_eq, bind_apply_eq_ok] at h
  obtain ⟨_, _, hreceive, -⟩ := h
  exact of_receive_eq_ok hreceive

theorem Server.Calm.receive (calm : Calm session server) (sql : String) :
    session.receive sql server = (.ok ⟨⟩, server.logged sql) := by
  rw [receive_open calm.opened, calm.failures]
  rfl

theorem Server.Calm.logged (calm : Calm session server) (sql : String) :
    Calm session (server.logged sql) :=
  (respects_receive session sql).keepsCalm.after calm (calm.receive sql)

theorem Server.Calm.commit (calm : Calm session server) :
    ∃ next, session.commit server = (.ok ⟨⟩, next) ∧ next.tables = server.tables := by
  rw [Session.commit_eq, bind_apply, calm.receive]
  exact ⟨_, rfl, rfl⟩

theorem Server.Calm.select (calm : Calm session server) {s : Select} {t : Table}
    (ht : server.table? s.table = some t) :
    session.select s server = (t.select s, server.logged s.sql) := by
  have hfound : (server.logged s.sql).table? s.table = some t := ht
  rw [Session.select_eq, bind_apply, calm.receive]
  dsimp only
  rw [bind_apply, Action.table_apply, hfound]
  exact lift_apply _ _

/-- On a calm server an insert succeeds if its table takes the rows. -/
theorem Server.Calm.insert (calm : Calm session server) {s : Insert} {t : Table}
    (ht : server.table? s.table = some t) (h : ∀ now, ∃ r, t.insert now s = .ok r) :
    ∃ affected next, session.insert s server = (.ok affected, next) := by
  have hfound : (server.logged s.sql).table? s.table = some t := ht
  obtain ⟨r, hinsert⟩ := h ((server.logged s.sql).clock (server.logged s.sql).log.size)
  rw [Session.insert_eq, bind_apply, calm.receive]
  dsimp only
  rw [Action.applyInsert_apply, hfound]
  dsimp only
  rw [hinsert]
  exact ⟨_, _, rfl⟩

theorem Server.Alike.table? (h : Alike server other) (ref : TableRef) :
    server.table? ref = other.table? ref := h ref.key

theorem Server.SameBut.alike {ref : TableRef} (h : SameBut ref server other)
    (same : other.table? ref = server.table? ref) : Alike other server := by
  intro key
  by_cases hkey : key = ref.key
  · rw [hkey]
    exact same
  · exact h key hkey

theorem Server.Alike.of_tables {server' other' : Server} (h : Alike server other)
    (hserver : server'.tables = server.tables) (hother : other'.tables = other.tables) :
    Alike server' other' := by
  intro key
  rw [hserver, hother]
  exact h key

theorem Server.Alike.insert (h : Alike server other) {server' other' : Server} {key : String} {t : Table}
    (hserver : server'.tables = server.tables.insert key t)
    (hother : other'.tables = other.tables.insert key t) : Alike server' other' := by
  intro key'
  rw [hserver, hother, Std.TreeMap.getElem?_insert, Std.TreeMap.getElem?_insert, h key']

/-- Without a stamp an insert does not see the clock. -/
theorem Server.Alike.applyInsert (h : Alike server other) {s : Insert} (unstamped : s.stamp = none) :
    (Action.applyInsert s server).1 = (Action.applyInsert s other).1 ∧
      Alike (Action.applyInsert s server).2 (Action.applyInsert s other).2 := by
  rw [Action.applyInsert_apply, Action.applyInsert_apply, h.table? s.table]
  cases other.table? s.table with
  | none => exact ⟨rfl, h⟩
  | some t =>
    dsimp only
    rw [Table.insert_unstamped unstamped, Table.insert_unstamped unstamped]
    cases t.applyAll s.columns s.onConflict none s.rows with
    | error e => exact ⟨rfl, h⟩
    | ok r => exact ⟨rfl, h.insert rfl rfl⟩

end Statements

/-- Both sides are calm and have the same tables. -/
structure Server.Paired (session session' : Session) (server other : Server) : Prop where
  left : Calm session server
  right : Calm session' other
  alike : Alike server other

/-- On paired servers the same comes back, and what is left is paired again. -/
def Agree (session session' : Session) {ε α : Type} (work work' : ExceptT ε (StateM Server) α) : Prop :=
  ∀ server other, Paired session session' server other →
    (work server).1 = (work' other).1 ∧ Paired session session' (work server).2 (work' other).2

section Agree

variable {session session' : Session} {ε α β : Type}

theorem agree_pure (a : α) : Agree session session' (pure a : ExceptT ε (StateM Server) α) (pure a) :=
  fun _ _ paired => ⟨rfl, paired⟩

theorem agree_lift (x : Except ε α) :
    Agree session session' (liftM x : ExceptT ε (StateM Server) α) (liftM x) := by
  intro server other paired
  rw [lift_apply, lift_apply]
  exact ⟨rfl, paired⟩

theorem Agree.bind {work work' : ExceptT ε (StateM Server) α}
    {rest rest' : α → ExceptT ε (StateM Server) β} (h : Agree session session' work work')
    (hrest : ∀ a, Agree session session' (rest a) (rest' a)) :
    Agree session session' (work >>= rest) (work' >>= rest') := by
  intro server other paired
  obtain ⟨hsame, hpaired⟩ := h server other paired
  rw [bind_apply, bind_apply]
  rcases hwork : work server with ⟨e | a, next⟩
  all_goals
    rcases hwork' : work' other with ⟨e' | a', next'⟩
    all_goals rw [hwork, hwork'] at hsame hpaired
  · exact ⟨congrArg Except.error (Except.error.inj hsame), hpaired⟩
  · cases hsame
  · cases hsame
  · obtain rfl := Except.ok.inj hsame
    exact hrest a next next' hpaired

theorem Agree.ofAction {action action' : Action α} (h : Agree session session' action action') :
    Agree session session' (Run.ofAction action) (Run.ofAction action') := by
  intro server other paired
  obtain ⟨hsame, hpaired⟩ := h server other paired
  unfold Run.ofAction
  rcases haction : action server with ⟨e | a, next⟩
  all_goals
    rcases haction' : action' other with ⟨e' | a', next'⟩
    all_goals rw [haction, haction'] at hsame hpaired
  · obtain rfl := Except.error.inj hsame
    exact ⟨rfl, hpaired⟩
  · cases hsame
  · cases hsame
  · obtain rfl := Except.ok.inj hsame
    exact ⟨rfl, hpaired⟩

theorem agree_receive (sql : String) :
    Agree session session' (session.receive sql) (session'.receive sql) := by
  intro server other paired
  rw [paired.left.receive, paired.right.receive]
  exact ⟨rfl, paired.left.logged sql, paired.right.logged sql, paired.alike⟩

theorem agree_commit : Agree session session' session.commit session'.commit := by
  intro server other paired
  obtain ⟨next, hcommit, htables⟩ := paired.left.commit
  obtain ⟨next', hcommit', htables'⟩ := paired.right.commit
  have hleft := (respects_commit session).keepsCalm.after paired.left hcommit
  have hright := (respects_commit session').keepsCalm.after paired.right hcommit'
  rw [hcommit, hcommit']
  exact ⟨rfl, hleft, hright, paired.alike.of_tables htables htables'⟩

theorem agree_applyInsert {s : Insert} (unstamped : s.stamp = none) :
    Agree session session' (Action.applyInsert s) (Action.applyInsert s) := by
  intro server other paired
  obtain ⟨hsame, halike⟩ := paired.alike.applyInsert unstamped
  have hleft := (respects_applyInsert s).keepsCalm server paired.left
  exact ⟨hsame, hleft, (respects_applyInsert s).keepsCalm other paired.right, halike⟩

end Agree

end ReadingBench.Store

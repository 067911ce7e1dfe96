import LoxilbUi.Recovery.Restore
import LoxilbUi.Recovery.Theorems.SnapshotDbPackage

-- What a restore may run, whatever the commands answer and wherever it stops: it only looks until everything has
-- been checked, and then writes to its own new database only.

namespace Recovery

open Script

variable {py : Python} {args : Args} {container user database query : String} {data : Option Bytes}
variable {α : Type} {f : String → Py α} {t : List (Call × Except Raised Bytes)} {r : Except Raised α}

section Calls

theorem runs_command {cmd : List String} {s : Except Raised Bytes} :
    (command cmd data).Runs t s ↔ t = [(.run cmd data, s)] :=
  runs_single

def psql (args : Args) (database query : String) : Call :=
  .run (pgArgs (psqlArgs query) args.container args.dbUser database) none

theorem runs_sql {s : Except Raised String} : (sql py args.container args.dbUser database query).Runs t s ↔
    ∃ answer, t = [(psql args database query, answer)] ∧ s = answer.bind py.text := by
  rw [sql, runs_bind]
  simp only [pg, runs_command, runs_lift]
  constructor
  case mp =>
    rintro (⟨e, rfl, rfl⟩ | ⟨out, t₁, t₂, rfl, rfl, rfl, rfl⟩)
    · exact ⟨.error e, rfl, rfl⟩
    · exact ⟨.ok out, rfl, rfl⟩
  case mpr =>
    rintro ⟨answer, rfl, rfl⟩
    cases answer
    case error e => exact .inl ⟨e, rfl, rfl⟩
    case ok out  => exact .inr ⟨out, _, [], rfl, rfl, rfl, rfl⟩

theorem runs_command_bind {cmd : List String} {g : Bytes → Py α} (h : (command cmd data >>= g).Runs t r) :
    (∃ e, t = [(.run cmd data, .error e)] ∧ r = .error e) ∨
    ∃ out t', t = (.run cmd data, .ok out) :: t' ∧ (g out).Runs t' r := by
  rcases runs_bind.mp h with ⟨e, rfl, hc⟩ | ⟨out, t₁, t₂, rfl, hc, hg⟩
  · exact .inl ⟨e, runs_command.mp hc, rfl⟩
  · obtain rfl := runs_command.mp hc
    exact .inr ⟨out, t₂, rfl, hg⟩

theorem runs_sql_bind (h : (sql py args.container args.dbUser database query >>= f).Runs t r) :
    (∃ answer e, t = [(psql args database query, answer)] ∧ r = .error e) ∨
    ∃ out v t', t = (psql args database query, .ok out) :: t' ∧ py.text out = .ok v ∧ (f v).Runs t' r := by
  rcases runs_bind.mp h with ⟨e, rfl, hq⟩ | ⟨v, t₁, t₂, rfl, hq, hf⟩
  · obtain ⟨answer, rfl, -⟩ := runs_sql.mp hq
    exact .inl ⟨answer, e, rfl, rfl⟩
  · obtain ⟨answer, rfl, hv⟩ := runs_sql.mp hq
    cases answer
    case error e => cases hv
    case ok out  => exact .inr ⟨out, v, t₂, rfl, hv.symm, hf⟩

end Calls

section Dump

variable {dump : Bytes} {u : Except Raised Unit}

def pgRestore (args : Args) (dump : Bytes) : Call :=
  .run (pgArgs pgRestoreArgs args.container args.dbUser args.database) (some dump)

-- The commands behind the checks.
def writes (args : Args) (dump : Bytes) : List Call := [
  psql args "postgres" (createQuery args.database), psql args "postgres" (revokeQuery args.database),
  pgRestore args dump, psql args args.database disableQuery, psql args args.database enabledQuery,
  psql args args.database sessionsQuery]

-- A command was answered, and the text of the answer is `v`.
def Reads (py : Python) (call : Call) (v : String) (t : List (Call × Except Raised Bytes)) : Prop :=
  ∃ out, (call, .ok out) ∈ t ∧ py.text out = .ok v

-- The whole of what restores a dump, the quarantine included.
structure Restored (py : Python) (args : Args) (dump : Bytes) (t : List (Call × Except Raised Bytes)) : Prop where
  calls    : t.map Prod.fst = writes args dump
  enabled  : Reads py (psql args args.database enabledQuery) "0" t
  sessions : Reads py (psql args args.database sessionsQuery) "0" t

theorem restoreDump_runs (h : (restoreDump py args dump).Runs t u) :
    Follows (writes args dump) t ∧ ∀ v, u = .ok v → Restored py args dump t := by
  rcases runs_sql_bind h with ⟨_, _, rfl, rfl⟩ | ⟨out₁, _, t₁, rfl, -, h₁⟩
  · exact ⟨.last, fun _ hu => by cases hu⟩
  rcases runs_sql_bind h₁ with ⟨_, _, rfl, rfl⟩ | ⟨out₂, _, t₂, rfl, -, h₂⟩
  · exact ⟨.next .last, fun _ hu => by cases hu⟩
  rcases runs_command_bind h₂ with ⟨_, rfl, rfl⟩ | ⟨out₃, t₃, rfl, h₃⟩
  · exact ⟨.next <| .next .last, fun _ hu => by cases hu⟩
  rcases runs_sql_bind h₃ with ⟨_, _, rfl, rfl⟩ | ⟨out₄, _, t₄, rfl, -, h₄⟩
  · exact ⟨.next <| .next <| .next .last, fun _ hu => by cases hu⟩
  rcases runs_sql_bind h₄ with ⟨_, _, rfl, rfl⟩ | ⟨out₅, enabled, t₅, rfl, he, h₅⟩
  · exact ⟨.next <| .next <| .next <| .next .last, fun _ hu => by cases hu⟩
  rcases runs_sql_bind h₅ with ⟨_, _, rfl, rfl⟩ | ⟨out₆, sessions, t₆, rfl, hs, h₆⟩
  · exact ⟨.next <| .next <| .next <| .next <| .next .last, fun _ hu => by cases hu⟩
  obtain ⟨rfl, rfl⟩ := runs_lift.mp h₆
  refine ⟨.next <| .next <| .next <| .next <| .next <| .next .nil, fun _ hu => ?_⟩
  have hz := require_eq_ok.mp hu
  rw [Bool.and_eq_true, decide_eq_true_iff, decide_eq_true_iff] at hz
  exact ⟨rfl, ⟨out₅, by simp, hz.1 ▸ he⟩, ⟨out₆, by simp, hz.2 ▸ hs⟩⟩

end Dump

section Checks

variable {P : Call → Prop} {x : Py α} {payload info doc : PyValue} {name owner : String} {u : Except Raised Unit}

-- What looks, and writes nothing.
def Looks (args : Args) (c : Call) : Prop :=
  c = .run ["docker", "inspect", args.container] none ∨
  (∃ network, c = .run ["docker", "network", "inspect", network] none) ∨
  ∃ query ∈ [systemQuery, versionQuery, countQuery args.database], c = psql args "postgres" query

theorem only_command {cmd : List String} (h : P (.run cmd data)) : Only P (command cmd data) :=
  only_call h fun _ => only_done

theorem only_sql (h : P (psql args database query)) : Only P (sql py args.container args.dbUser database query) :=
  only_bind (only_command h) fun _ => only_done

theorem only_inspectNetworks {networks : List PyValue} : Only (Looks args) (inspectNetworks py networks) := by
  induction networks
  case nil => exact only_done
  case cons network networks hi =>
    refine only_bind ?_ fun _ => hi
    cases network
    case str network =>
      refine only_bind (only_command <| .inr <| .inl ⟨network, rfl⟩) fun _ => ?_
      repeat' first | exact only_done | refine only_bind only_done fun _ => ?_
    all_goals exact only_done

theorem only_inspectIsolation : Only (Looks args) (inspectIsolation py info) := by
  repeat' first | exact only_inspectNetworks | refine only_bind only_done fun _ => ?_

theorem only_inspectContainer {isolated : Bool} :
    Only (Looks args) (inspectContainer py args.container args.owner isolated) := by
  refine only_bind (only_command <| .inl rfl) fun _ => ?_
  repeat' refine only_bind only_done fun _ => ?_
  split
  · exact only_bind only_inspectIsolation fun _ => only_done
  · exact only_done

theorem only_restoreChecks : Only (Looks args) (restoreChecks py args payload) := by
  have hq (query : String) (h : query ∈ [systemQuery, versionQuery, countQuery args.database]) :
      Only (Looks args) (sql py args.container args.dbUser "postgres" query) :=
    only_sql <| .inr <| .inr ⟨query, h, rfl⟩
  refine only_bind only_done fun _ => only_bind only_inspectContainer fun _ => only_bind ?_ fun _ => ?_
  · exact only_bind (hq _ <| by simp) fun _ => only_bind (hq _ <| by simp) fun _ => only_bind only_done fun _ => only_done
  · iterate 6 refine only_bind only_done fun _ => ?_
    exact only_bind (hq _ <| by simp) fun _ => only_done

-- What a command told, as the first document of a list.
def Told (py : Python) (cmd : List String) (doc : PyValue) (t : List (Call × Except Raised Bytes)) : Prop :=
  ∃ out docs, (.run cmd none, .ok out) ∈ t ∧ py.loads out = .ok docs ∧ docs.first = .ok doc

def MemberOr (doc : PyValue) (key : String) (default : PyValue) (p : PyValue → Prop) : Prop :=
  ∃ v, doc.getOr key default = .ok v ∧ p v

-- A network that nothing outside can reach.
def Internal (py : Python) (network : PyValue) (t : List (Call × Except Raised Bytes)) : Prop :=
  ∃ name, network = .str name ∧ ∃ doc, Told py ["docker", "network", "inspect", name] doc t ∧
    Member doc "Internal" (·.truthy = true)

-- A container that runs for its owner, on networks of its own only.
structure Private (py : Python) (owner : String) (info : PyValue) (t : List (Call × Except Raised Bytes)) : Prop where
  owned    : Member info "Config" (MemberOr · "Labels" (.dict []) (MemberOr · "owner" .none (·.eqStr owner = true)))
  running  : Member info "State" (Member · "Running" (·.truthy = true))
  networks : Member info "NetworkSettings" (Member · "Networks" fun networks => networks.truthy = true ∧
    ∃ names, networks.iter = .ok names ∧ ∀ network ∈ names, Internal py network t)
  ports    : Member info "HostConfig" (MemberOr · "PortBindings" .none (·.truthy = false))

-- What has been found out before anything is written.
structure Cleared (py : Python) (args : Args) (payload : PyValue) (t : List (Call × Except Raised Bytes)) : Prop where
  name      : isDestination args.database = true
  container : ∃ info, Told py ["docker", "inspect", args.container] info t ∧ Private py args.owner info t
  cluster   : ∃ system, Reads py (psql args "postgres" systemQuery) system t ∧
    Member payload "source" (Member · "system_identifier" (·.eqStr system = false))
  major     : ∃ text version, Reads py (psql args "postgres" versionQuery) text t ∧ py.int text = .ok version ∧
    Member payload "source" (Member · "postgres_major" (·.eqInt (version.fdiv 10000) = true))
  absent    : Reads py (psql args "postgres" <| countQuery args.database) "0" t

section Success

variable {t' : List (Call × Except Raised Bytes)} {network : PyValue} {networks : List PyValue} {cmd : List String}

theorem Told.mono (h : Told py cmd doc t) (ht : t ⊆ t') : Told py cmd doc t' := by
  obtain ⟨out, docs, hm, h⟩ := h
  exact ⟨out, docs, ht hm, h⟩

theorem Internal.mono (h : Internal py network t) (ht : t ⊆ t') : Internal py network t' := by
  obtain ⟨name, hn, doc, hd, hi⟩ := h
  exact ⟨name, hn, doc, hd.mono ht, hi⟩

theorem Private.mono (h : Private py owner info t) (ht : t ⊆ t') : Private py owner info t' where
  owned    := h.owned
  running  := h.running
  ports    := h.ports
  networks := by
    obtain ⟨settings, hs, networks, hn, htr, names, hi, hall⟩ := h.networks
    exact ⟨settings, hs, networks, hn, htr, names, hi, fun network hm => (hall network hm).mono ht⟩

theorem Reads.mono {call : Call} {v : String} (h : Reads py call v t) (ht : t ⊆ t') : Reads py call v t' := by
  obtain ⟨out, hm, h⟩ := h
  exact ⟨out, ht hm, h⟩

theorem reads_of_sql {v : String} (h : (sql py args.container args.dbUser database query).Runs t (.ok v)) :
    Reads py (psql args database query) v t := by
  obtain ⟨answer, rfl, hv⟩ := runs_sql.mp h
  cases answer
  case error e => cases hv
  case ok out  => exact ⟨out, by simp, hv.symm⟩

theorem internal_of_inspect (h : (inspectNetwork py network).Runs t (.ok ())) : Internal py network t := by
  cases network
  case str name =>
    rw [inspectNetwork, runs_bind_ok] at h
    obtain ⟨out, t₁, t₂, rfl, hc, h⟩ := h
    simp only [runs_lift_bind_ok, runs_lift] at h
    obtain ⟨docs, hl, doc, hf, internal, hi, rfl, hr⟩ := h
    exact ⟨name, rfl, doc, ⟨out, docs, by simp [runs_command.mp hc], hl, hf⟩, internal, hi, require_eq_ok.mp hr.symm⟩
  all_goals
    obtain ⟨_, hr⟩ := runs_raise.mp h
    cases hr

theorem internal_of_inspects (h : (inspectNetworks py networks).Runs t (.ok ())) :
    ∀ network ∈ networks, Internal py network t := by
  induction networks generalizing t
  case nil => simp
  case cons network networks hi =>
    rw [inspectNetworks, runs_bind_ok] at h
    obtain ⟨_, t₁, t₂, rfl, h₁, h₂⟩ := h
    refine List.forall_mem_cons.mpr ⟨(internal_of_inspect h₁).mono <| by simp, fun n hn => ?_⟩
    exact (hi h₂ n hn).mono <| by simp

theorem private_of_inspect (h : (inspectContainer py name owner true).Runs t (.ok info)) :
    Told py ["docker", "inspect", name] info t ∧ Private py owner info t := by
  rw [inspectContainer, runs_bind_ok] at h
  obtain ⟨out, t₁, t₂, rfl, hc, h⟩ := h
  simp only [runs_lift_bind_ok, if_true, require_eq_ok] at h
  obtain ⟨docs, hl, info', hf, config, hg, labels, hb, label, ho, _, he, state, hs, running, hr, _, ht, h⟩ := h
  obtain ⟨_, t₃, t₄, rfl, hi, hp⟩ := runs_bind_ok.mp h
  obtain ⟨rfl, he'⟩ := runs_pure.mp hp
  obtain rfl := Except.ok.inj he'
  refine ⟨⟨out, docs, by simp [runs_command.mp hc], hl, hf⟩, ?_⟩
  simp only [inspectIsolation, runs_lift_bind_ok, require_eq_ok] at hi
  obtain ⟨settings, hs', networks, hn, _, hnt, host, hh, bindings, hbi, _, hbt, names, hit, hi⟩ := hi
  constructor
  case owned    => exact ⟨config, hg, labels, hb, label, ho, he⟩
  case running  => exact ⟨state, hs, running, hr, ht⟩
  case ports    => exact ⟨host, hh, bindings, hbi, by simpa using hbt⟩
  case networks =>
    refine ⟨settings, hs', networks, hn, hnt, names, hit, fun network hm => ?_⟩
    exact (internal_of_inspects hi network hm).mono <| by simp

theorem cleared_of_checks (h : (restoreChecks py args payload).Runs t (.ok ())) : Cleared py args payload t := by
  simp only [restoreChecks, runs_lift_bind_ok, require_eq_ok] at h
  obtain ⟨_, hn, h⟩ := h
  obtain ⟨info, t₁, t₂, rfl, hc, h⟩ := runs_bind_ok.mp h
  obtain ⟨target, t₃, t₄, rfl, ht, h⟩ := runs_bind_ok.mp h
  obtain ⟨system, t₅, t₆, rfl, hs, ht₁⟩ := runs_bind_ok.mp ht
  obtain ⟨text, t₇, t₈, rfl, hv, ht₂⟩ := runs_bind_ok.mp ht₁
  obtain ⟨version, hi, ht₃⟩ := runs_lift_bind_ok.mp ht₂
  obtain ⟨rfl, ht₄⟩ := runs_pure.mp ht₃
  obtain rfl := Except.ok.inj ht₄
  simp only [runs_lift_bind_ok, require_eq_ok] at h
  obtain ⟨source, hso, id, hid, _, hne, source', hso', major, hma, _, hmj, h⟩ := h
  obtain ⟨existing, t₉, t₁₀, rfl, hq, h⟩ := runs_bind_ok.mp h
  obtain ⟨rfl, hz⟩ := runs_lift.mp h
  obtain ⟨ht, hp⟩ := private_of_inspect hc
  constructor
  case name      => exact hn
  case container =>
    exact ⟨info, ht.mono fun _ hm => by simp [hm], hp.mono fun _ hm => by simp [hm]⟩
  case cluster   =>
    exact ⟨system, (reads_of_sql hs).mono fun _ hm => by simp [hm], source, hso, id, hid, by simpa using hne⟩
  case major     =>
    exact ⟨text, version, (reads_of_sql hv).mono fun _ hm => by simp [hm], hi, source', hso', major, hma, hmj⟩
  case absent    =>
    obtain rfl := of_decide_eq_true <| require_eq_ok.mp hz.symm
    exact (reads_of_sql hq).mono fun _ hm => by simp [hm]

end Success

end Checks

section Restore

variable {euid : Nat} {package : Except Raised Bytes} {key : Except Raised KeyFile} {opened : Opened}
variable {told : Except Raised PyValue}

-- What the package holds, under the key of the file.
def Opens (py : Python) (euid : Nat) (package : Except Raised Bytes) (key : Except Raised KeyFile) (opened : Opened) :
    Prop :=
  ∃ raw file k, package = .ok raw ∧ key = .ok file ∧ readKey euid file = .ok k ∧
    unsealPackage py.toHost raw k = .ok opened

-- Until all is checked nothing is run that does not look, and then the commands that write, in their order and each
-- after the one before it succeeded. Success is reported behind the quarantine only.
def Guarded (py : Python) (args : Args) (euid : Nat) (package : Except Raised Bytes) (key : Except Raised KeyFile)
    (t : List (Call × Except Raised Bytes)) (told : Except Raised PyValue) : Prop :=
  ∃ checks after, t = checks ++ after ∧ (∀ entry ∈ checks, Looks args entry.1) ∧
    (after ≠ [] ∨ (∃ v, told = .ok v) → ∃ opened, Opens py euid package key opened ∧
      Cleared py args opened.payload checks ∧ Follows (writes args opened.dump) after ∧
      ∀ v, told = .ok v → Restored py args opened.dump after)

theorem guarded_of_runs (h : (restore py args euid package key).Runs t told) :
    Guarded py args euid package key t told := by
  have hstop (e : Raised) (he : told = .error e) (checks : List (Call × Except Raised Bytes))
      (hl : ∀ entry ∈ checks, Looks args entry.1) : Guarded py args euid package key checks told := by
    refine ⟨checks, [], (List.append_nil checks).symm, hl, ?_⟩
    rw [he]
    simp
  rcases runs_lift_bind.mp h with ⟨e, -, rfl, he⟩ | ⟨raw, hraw, h₁⟩
  · exact hstop e he [] <| by simp
  rcases runs_lift_bind.mp h₁ with ⟨e, -, rfl, he⟩ | ⟨file, hfile, h₂⟩
  · exact hstop e he [] <| by simp
  rcases runs_lift_bind.mp h₂ with ⟨e, -, rfl, he⟩ | ⟨k, hk, h₃⟩
  · exact hstop e he [] <| by simp
  rcases runs_lift_bind.mp h₃ with ⟨e, -, rfl, he⟩ | ⟨opened, ho, h₄⟩
  · exact hstop e he [] <| by simp
  rcases runs_bind.mp h₄ with ⟨e, he, hc⟩ | ⟨_, checks, t₁, rfl, hc, h₅⟩
  · exact hstop e he t <| only_restoreChecks t _ hc
  refine ⟨checks, t₁, rfl, only_restoreChecks checks _ hc, fun _ => ⟨opened, ⟨raw, file, k, hraw, hfile, hk, ho⟩,
    cleared_of_checks hc, ?_⟩⟩
  rcases runs_bind.mp h₅ with ⟨e, he, hd⟩ | ⟨_, t₂, t₃, rfl, hd, h₆⟩
  · refine ⟨(restoreDump_runs hd).1, fun v hv => ?_⟩
    rw [he] at hv
    cases hv
  · obtain ⟨hf, hr⟩ := restoreDump_runs hd
    -- Nothing is run behind the last count.
    have ht : t₃ = [] := by
      rcases runs_lift_bind.mp h₆ with ⟨_, -, ht, -⟩ | ⟨_, -, h₇⟩
      · exact ht
      · exact (runs_pure.mp h₇).1
    rw [ht, List.append_nil]
    exact ⟨hf, fun _ _ => hr _ rfl⟩

end Restore

end Recovery

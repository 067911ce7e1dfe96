import LoxilbUi.Recovery.Theorems.Restore

-- What an export puts into its package is what a later restore writes, to another cluster and in its own order.

namespace Recovery

open Script

variable {py : Python} {args : Args} {t : List (Call × Except Raised Bytes)}

section Export

variable {euid : Nat} {snapshot : Except Raised Bytes} {key : Except Raised KeyFile} {output captured : String}
variable {nonce : Nonce} {told : PyValue} {package dump snap : Bytes} {source : Identity} {schema : PyValue}

def pgDump (args : Args) : Call :=
  .run (pgArgs pgDumpArgs args.container args.dbUser args.database) none

-- What a package was made of.
structure Exported (py : Python) (args : Args) (snapshot : Except Raised Bytes) (source : Identity) (schema : PyValue)
    (dump snap : Bytes) (t : List (Call × Except Raised Bytes)) : Prop where
  cluster  : Reads py (psql args args.database systemQuery) source.systemIdentifier t
  major    : ∃ text version, Reads py (psql args args.database versionQuery) text t ∧ py.int text = .ok version ∧
    source.postgresMajor = version.fdiv 10000
  -- There is no table of the management that the dump does not know how to leave out.
  tables   : ∃ text, Reads py (psql args args.database tablesQuery) text t ∧
    ∀ table ∈ splitLines [] text.toList, table ∈ ["users", "token"]
  dump     : (pgDump args, .ok dump) ∈ t
  snapshot : snapshot = .ok snap
  schema   : ∃ doc, py.loads snap = .ok doc ∧ doc.item "schema_version" = .ok schema

theorem reads_of_identity {database : String} (h : (identity py args.container args.dbUser database).Runs t (.ok source)) :
    Reads py (psql args database systemQuery) source.systemIdentifier t ∧
    ∃ text version, Reads py (psql args database versionQuery) text t ∧ py.int text = .ok version ∧
      source.postgresMajor = version.fdiv 10000 := by
  obtain ⟨system, t₁, t₂, rfl, hs, h₁⟩ := runs_bind_ok.mp h
  obtain ⟨text, t₃, t₄, rfl, ht, h₂⟩ := runs_bind_ok.mp h₁
  obtain ⟨version, hv, h₃⟩ := runs_lift_bind_ok.mp h₂
  obtain ⟨rfl, h₄⟩ := runs_pure.mp h₃
  obtain rfl := Except.ok.inj h₄
  refine ⟨(reads_of_sql hs).mono fun _ hm => by simp [hm], text, version, ?_, hv, rfl⟩
  exact (reads_of_sql ht).mono fun _ hm => by simp [hm]

theorem exported_of_runs (h : (exportPackage py args output captured nonce euid snapshot key).Runs t (.ok told)) :
    ∃ source schema dump snap file k package, Exported py args snapshot source schema dump snap t ∧ key = .ok file ∧
      readKey euid file = .ok k ∧
      sealPackage py.toHost nonce (payloadOf py captured source schema dump snap) k = .ok package ∧
      ∃ out, (.write output package, .ok out) ∈ t := by
  obtain ⟨_, t₁, t₂, rfl, -, h₁⟩ := runs_bind_ok.mp h
  obtain ⟨source, t₃, t₄, rfl, hs, h₂⟩ := runs_bind_ok.mp h₁
  obtain ⟨text, t₅, t₆, rfl, ht, h₃⟩ := runs_bind_ok.mp h₂
  simp only [runs_lift_bind_ok, require_eq_ok] at h₃
  obtain ⟨_, hu, snap, hsnap, doc, hdoc, kind, -, _, -, checksum, -, _, -, version, -, _, -, h₄⟩ := h₃
  obtain ⟨dump, t₇, t₈, rfl, hd, h₅⟩ := runs_bind_ok.mp h₄
  simp only [runs_lift_bind_ok] at h₅
  obtain ⟨schema, hschema, file, hfile, k, hk, package, hp, h₆⟩ := h₅
  obtain ⟨out, t₉, t₁₀, rfl, hw, -⟩ := runs_bind_ok.mp h₆
  refine ⟨source, schema, dump, snap, file, k, package, ?_, hfile, hk, hp, out, by simp [runs_single.mp hw]⟩
  obtain ⟨hc, text', version, hr, hv, hm⟩ := reads_of_identity hs
  constructor
  case cluster  => exact hc.mono fun _ hm => by simp [hm]
  case major    => exact ⟨text', version, hr.mono fun _ hm => by simp [hm], hv, hm⟩
  case tables   =>
    rw [Bool.and_eq_true, List.all_eq_true] at hu
    exact ⟨text, (reads_of_sql ht).mono fun _ hm => by simp [hm], fun table hm => of_decide_eq_true <| hu.2 table hm⟩
  case dump     => simp [runs_command.mp hd, pgDump]
  case snapshot => exact hsnap
  case schema   => exact ⟨doc, hdoc, hschema⟩

-- `base64.b64decode` reads what `base64.b64encode` wrote.
def Base64RoundTrips (py : Python) : Prop :=
  ∀ data, py.b64decode (.str <| Base64.encode data) = .ok data

theorem valid_payloadOf (hb : Base64RoundTrips py) :
    Valid py.toHost ⟨payloadOf py captured source schema dump snap, dump, snap⟩ where
  format         := ⟨_, rfl, rfl⟩
  dump           := ⟨_, rfl, hb dump⟩
  snapshot       := ⟨_, rfl, hb snap⟩
  dumpDigest     := ⟨_, rfl, decide_eq_true rfl⟩
  snapshotDigest := ⟨_, rfl, decide_eq_true rfl⟩

theorem length_readKey {file : KeyFile} {k : Bytes} (h : readKey euid file = .ok k) : k.length = 32 := by
  simp only [readKey, bind_eq_ok, require_eq_ok, return_eq_ok] at h
  obtain ⟨_, -, _, hl, rfl⟩ := h
  exact of_decide_eq_true hl

-- What a command reads.
def Call.stdin : Call → Option Bytes
  | .run _ data => data
  | .write _ _  => none

theorem data_of_looks {c : Call} (h : Looks args c) : c.stdin = none := by
  rcases h with rfl | ⟨_, rfl⟩ | ⟨_, _, rfl⟩ <;> rfl

theorem data_of_writes {c : Call} (h : c ∈ writes args dump) : ∀ d ∈ c.stdin, d = dump := by
  simp only [writes, List.mem_cons, List.not_mem_nil, or_false] at h
  rcases h with rfl | rfl | rfl | rfl | rfl | rfl <;> simp [psql, pgRestore, Call.stdin, eq_comm]

section Small

-- `[{"Config":{"Labels":{"owner":"ops"}},"State":{"Running":true},"NetworkSettings":{"Networks":{"private":{}}},
-- "HostConfig":{}}]`
def inspectText : String :=
  "[\x7b\"Config\":\x7b\"Labels\":\x7b" ++ memberText "owner" "ops" ++ "\x7d\x7d,\"State\":\x7b\"Running\":true\x7d," ++
    "\"NetworkSettings\":\x7b\"Networks\":\x7b\"private\":\x7b\x7d\x7d\x7d,\"HostConfig\":\x7b\x7d\x7d]"

def inspectDoc : PyValue :=
  .dict [("Config", .dict [("Labels", .dict [("owner", .str "ops")])]), ("State", .dict [("Running", .bool true)]),
    ("NetworkSettings", .dict [("Networks", .dict [("private", .dict [])])]), ("HostConfig", .dict [])]

def networkText : String :=
  "[\x7b\"Internal\":true\x7d]"

def networkDoc : PyValue :=
  .dict [("Internal", .bool true)]

def snapDoc : PyValue :=
  .dict [("kind", .str "loxilb-snapshot"), ("checksum", .str "c"), ("schema_version", .int 1)]

-- The host of the package, which can read the other texts too.
def smallPython : Python where
  toHost := { smallHost with
    loads := fun text =>
      if text = ascii inspectText then .ok <| .list [inspectDoc]
      else if text = ascii snapText then .ok snapDoc
      else if text = ascii networkText then .ok <| .list [networkDoc]
      else smallHost.loads text }
  text out    := .ok <| .ofList <| out.map fun b => .ofNat b.toNat
  int s       := if s = "170004" then .ok 170004 else .error <| .other "ValueError"

def smallArgs : Args where
  container := "db"
  owner     := "ops"
  dbUser    := "admin"
  database  := "gateway"

def zeroFile : KeyFile where
  regular := true
  mode    := 0o600
  uid     := 0
  content := zeroKey

def smallRun : List (Call × Except Raised Bytes) := [
  (.run ["docker", "inspect", "db"] none, .ok <| ascii inspectText),
  (psql smallArgs "gateway" systemQuery, .ok <| ascii "7"),
  (psql smallArgs "gateway" versionQuery, .ok <| ascii "170004"),
  (psql smallArgs "gateway" tablesQuery, .ok <| ascii "token\nusers"),
  (pgDump smallArgs, .ok [68]),
  (.write "package" (frame zeroNonce smallData), .ok [])]

theorem loads_inspect : smallPython.loads (ascii inspectText) = .ok (.list [inspectDoc]) := by
  simp [smallPython]

theorem loads_snap : smallPython.loads (ascii snapText) = .ok snapDoc := by
  have h : ascii snapText ≠ ascii inspectText := by decide +kernel
  simp [smallPython, h]

theorem loads_network : smallPython.loads (ascii networkText) = .ok (.list [networkDoc]) := by
  have hi : ascii networkText ≠ ascii inspectText := by decide +kernel
  have hs : ascii networkText ≠ ascii snapText := by decide +kernel
  simp [smallPython, hi, hs]

theorem smallText_ne {text : String} (h : text.length ≠ smallText.length) : smallText ≠ ascii text := by
  intro he
  rw [he, ascii, List.length_map, String.length_toList] at h
  exact h rfl

theorem loads_small : smallPython.loads smallText = .ok smallPayload := by
  have hi : smallText ≠ ascii inspectText := smallText_ne <| by rw [length_smallText]; decide +kernel
  have hs : smallText ≠ ascii snapText := smallText_ne <| by rw [length_smallText]; decide +kernel
  have hn : smallText ≠ ascii networkText := smallText_ne <| by rw [length_smallText]; decide +kernel
  simp [smallPython, smallHost, hi, hs, hn]

theorem inspect_small : (inspectContainer smallPython "db" "ops" false).Runs
    [(.run ["docker", "inspect", "db"] none, .ok <| ascii inspectText)] (.ok inspectDoc) := by
  refine runs_bind_ok.mpr ⟨_, [_], [], rfl, runs_command.mpr rfl, ?_⟩
  simp only [runs_lift_bind_ok, require_eq_ok, loads_inspect]
  refine ⟨_, rfl, _, rfl, _, rfl, _, rfl, _, rfl, (), ?_, _, rfl, _, rfl, (), rfl, ?_⟩
  · decide
  · exact runs_pure.mpr ⟨rfl, rfl⟩

theorem payloadOf_small :
    payloadOf smallPython "2026-01-01T00:00:00+00:00" ⟨"7", 17⟩ (.int 1) [68] (ascii snapText) = smallPayload := by
  have h : ascii snapText ≠ [68] := by decide +kernel
  simp [payloadOf, smallPython, smallHost, smallPayload, h]

theorem seal_smallPython :
    sealPackage smallPython.toHost zeroNonce smallPayload zeroKey = .ok (frame zeroNonce smallData) :=
  sealPackage_eq_ok.mpr ⟨smallText, rfl, by rw [length_smallText]; decide, smallData, by simp [smallPython, smallHost], rfl⟩

def smallTold : PyValue :=
  .dict [("format", .int 1), ("captured_utc", .str "2026-01-01T00:00:00+00:00"), ("snapshot_schema", .int 1),
    ("management_sessions", .str "excluded"), ("restore_policy", .str "new-isolated-cluster-db-all-api-keys-disabled")]

theorem export_small :
    (exportPackage smallPython smallArgs "package" "2026-01-01T00:00:00+00:00" zeroNonce 0 (.ok <| ascii snapText)
      (.ok zeroFile)).Runs smallRun (.ok smallTold) := by
  refine runs_bind_ok.mpr ⟨_, [_], _, rfl, inspect_small, ?_⟩
  refine runs_bind_ok.mpr ⟨⟨"7", 17⟩, [_, _], _, rfl, ?_, ?_⟩
  · refine runs_bind_ok.mpr ⟨_, [_], [_], rfl, runs_sql.mpr ⟨_, rfl, rfl⟩, ?_⟩
    refine runs_bind_ok.mpr ⟨_, [_], [], rfl, runs_sql.mpr ⟨_, rfl, rfl⟩, ?_⟩
    exact runs_lift_bind_ok.mpr ⟨170004, rfl, runs_pure.mpr ⟨rfl, rfl⟩⟩
  refine runs_bind_ok.mpr ⟨_, [_], _, rfl, runs_sql.mpr ⟨_, rfl, rfl⟩, ?_⟩
  simp only [runs_lift_bind_ok, require_eq_ok]
  refine ⟨(), by decide +kernel, _, rfl, _, loads_snap, _, rfl, (), by decide, _, rfl, (), by decide, _, rfl, (),
    by decide, ?_⟩
  refine runs_bind_ok.mpr ⟨_, [_], [_], rfl, runs_command.mpr rfl, ?_⟩
  simp only [runs_lift_bind_ok]
  refine ⟨_, rfl, _, rfl, zeroKey, by rfl, _, payloadOf_small ▸ seal_smallPython, ?_⟩
  refine runs_bind_ok.mpr ⟨_, [_], [], rfl, runs_single.mpr rfl, ?_⟩
  exact runs_lift_bind_ok.mpr ⟨_, by rw [payloadOf_small]; rfl, runs_pure.mpr ⟨rfl, rfl⟩⟩

theorem cipher_small : smallPython.encrypt = smallHost.encrypt ∧ smallPython.decrypt = smallHost.decrypt :=
  ⟨rfl, rfl⟩

theorem small_aesGcm : AesGcm smallPython.toHost where
  inverts hk h   := by
    rw [cipher_small.1] at h
    rw [cipher_small.2]
    exact smallHost_aesGcm.inverts hk h
  authentic hk h := by
    rw [cipher_small.2] at h
    rw [cipher_small.1]
    exact smallHost_aesGcm.authentic hk h
  tag hk h       := by
    rw [cipher_small.1] at h
    exact smallHost_aesGcm.tag hk h

theorem small_base64 : Base64RoundTrips smallPython :=
  smallHost_base64

theorem small_json : JsonRoundTrips smallPython.toHost smallPayload := by
  intro text ht
  obtain rfl := Except.ok.inj ht
  exact loads_small

theorem valid_small : Valid smallPython.toHost ⟨smallPayload, [68], ascii snapText⟩ :=
  payloadOf_small ▸ valid_payloadOf small_base64

theorem unseal_small : unsealPackage smallPython.toHost (frame zeroNonce smallData) zeroKey =
    .ok ⟨smallPayload, [68], ascii snapText⟩ := by
  have hk : zeroKey.length = 32 := by decide
  exact unseal_seal hk small_aesGcm small_json valid_small seal_smallPython

def targetArgs : Args where
  container := "db"
  owner     := "ops"
  dbUser    := "admin"
  database  := "recovery_a"

def targetChecks : List (Call × Except Raised Bytes) := [
  (.run ["docker", "inspect", "db"] none, .ok <| ascii inspectText),
  (.run ["docker", "network", "inspect", "private"] none, .ok <| ascii networkText),
  (psql targetArgs "postgres" systemQuery, .ok <| ascii "8"),
  (psql targetArgs "postgres" versionQuery, .ok <| ascii "170004"),
  (psql targetArgs "postgres" (countQuery "recovery_a"), .ok <| ascii "0")]

def targetWrites : List (Call × Except Raised Bytes) :=
  (writes targetArgs [68]).zip [.ok [], .ok [], .ok [], .ok [], .ok <| ascii "0", .ok <| ascii "0"]

def targetTold : PyValue :=
  .dict [("format", .int 1), ("captured_utc", .str "2026-01-01T00:00:00+00:00"), ("snapshot_schema", .int 1),
    ("management_sessions", .str "excluded"), ("restore_policy", .str "new-isolated-cluster-db-all-api-keys-disabled"),
    ("database", .str "recovery_a"), ("enabled_api_keys", .int 0), ("restored_management_sessions", .int 0),
    ("cutover_performed", .bool false)]

theorem inspect_target : (inspectContainer smallPython "db" "ops" true).Runs (targetChecks.take 2) (.ok inspectDoc) := by
  refine runs_bind_ok.mpr ⟨_, [_], [_], rfl, runs_command.mpr rfl, ?_⟩
  simp only [runs_lift_bind_ok, require_eq_ok, loads_inspect, if_true]
  refine ⟨_, rfl, _, rfl, _, rfl, _, rfl, _, rfl, (), by decide, _, rfl, _, rfl, (), rfl, ?_⟩
  refine runs_bind_ok.mpr ⟨(), [_], [], rfl, ?_, runs_pure.mpr ⟨rfl, rfl⟩⟩
  simp only [inspectIsolation, runs_lift_bind_ok, require_eq_ok]
  refine ⟨_, rfl, _, rfl, (), rfl, _, rfl, _, rfl, (), rfl, _, rfl, ?_⟩
  refine runs_bind_ok.mpr ⟨(), [_], [], rfl, ?_, runs_pure.mpr ⟨rfl, rfl⟩⟩
  refine runs_bind_ok.mpr ⟨_, [_], [], rfl, runs_command.mpr rfl, ?_⟩
  simp only [runs_lift_bind_ok, loads_network]
  exact ⟨_, rfl, _, rfl, _, rfl, runs_lift.mpr ⟨rfl, rfl⟩⟩

theorem checks_target : (restoreChecks smallPython targetArgs smallPayload).Runs targetChecks (.ok ()) := by
  refine runs_lift_bind_ok.mpr ⟨(), require_eq_ok.mpr <| by decide, ?_⟩
  refine runs_bind_ok.mpr ⟨_, [_, _], _, rfl, inspect_target, ?_⟩
  refine runs_bind_ok.mpr ⟨⟨"8", 17⟩, [_, _], [_], rfl, ?_, ?_⟩
  · refine runs_bind_ok.mpr ⟨_, [_], [_], rfl, runs_sql.mpr ⟨_, rfl, rfl⟩, ?_⟩
    refine runs_bind_ok.mpr ⟨_, [_], [], rfl, runs_sql.mpr ⟨_, rfl, rfl⟩, ?_⟩
    exact runs_lift_bind_ok.mpr ⟨170004, rfl, runs_pure.mpr ⟨rfl, rfl⟩⟩
  simp only [runs_lift_bind_ok, require_eq_ok]
  refine ⟨_, rfl, _, rfl, (), by decide, _, rfl, _, rfl, (), by decide, ?_⟩
  exact runs_bind_ok.mpr ⟨_, [_], [], rfl, runs_sql.mpr ⟨_, rfl, rfl⟩, runs_lift.mpr ⟨rfl, rfl⟩⟩

theorem dump_target : (restoreDump smallPython targetArgs [68]).Runs targetWrites (.ok ()) := by
  refine runs_bind_ok.mpr ⟨_, [_], _, rfl, runs_sql.mpr ⟨_, rfl, rfl⟩, ?_⟩
  refine runs_bind_ok.mpr ⟨_, [_], _, rfl, runs_sql.mpr ⟨_, rfl, rfl⟩, ?_⟩
  refine runs_bind_ok.mpr ⟨_, [_], _, rfl, runs_command.mpr rfl, ?_⟩
  refine runs_bind_ok.mpr ⟨_, [_], _, rfl, runs_sql.mpr ⟨_, rfl, rfl⟩, ?_⟩
  refine runs_bind_ok.mpr ⟨_, [_], _, rfl, runs_sql.mpr ⟨_, rfl, rfl⟩, ?_⟩
  exact runs_bind_ok.mpr ⟨_, [_], [], rfl, runs_sql.mpr ⟨_, rfl, rfl⟩, runs_lift.mpr ⟨rfl, rfl⟩⟩

theorem restore_target :
    (restore smallPython targetArgs 0 (.ok <| frame zeroNonce smallData) (.ok zeroFile)).Runs
      (targetChecks ++ targetWrites) (.ok targetTold) := by
  simp only [restore, runs_lift_bind_ok]
  refine ⟨_, rfl, _, rfl, zeroKey, by rfl, _, unseal_small, ?_⟩
  refine runs_bind_ok.mpr ⟨_, _, _, rfl, checks_target, ?_⟩
  refine runs_bind_ok.mpr ⟨_, _, [], (List.append_nil _).symm, dump_target, ?_⟩
  exact runs_lift_bind_ok.mpr ⟨_, rfl, runs_pure.mpr ⟨rfl, rfl⟩⟩

end Small

end Export

section Restore

variable {euid : Nat} {package : Except Raised Bytes} {key : Except Raised KeyFile} {told : Except Raised PyValue}

-- Whatever the commands answer, and wherever the restore ends: what writes is run behind its own creation of the
-- database only, and that behind all checks.
theorem restore_guarded (h : (restore py args euid package key).Runs t told) :
    Guarded py args euid package key t told ∧
    ∀ entry ∈ t, Looks args entry.1 ∨ entry.1 = psql args "postgres" (createQuery args.database) ∨
      ∃ out, (psql args "postgres" (createQuery args.database), .ok out) ∈ t := by
  have hg := guarded_of_runs h
  refine ⟨hg, fun entry hm => ?_⟩
  obtain ⟨checks, after, rfl, hl, ha⟩ := hg
  rcases List.mem_append.mp hm with hm | hm
  · exact .inl <| hl entry hm
  · obtain ⟨opened, -, -, hf, -⟩ := ha <| .inl <| List.ne_nil_of_mem hm
    rcases hf.first entry hm with hc | ⟨out, hc⟩
    · exact .inr <| .inl hc
    · exact .inr <| .inr ⟨out, List.mem_append_right _ hc⟩

theorem target_guarded :
    (restore smallPython targetArgs 0 (.ok <| frame zeroNonce smallData) (.ok zeroFile)).Runs
      (targetChecks ++ targetWrites) (.ok targetTold) ∧
    Guarded smallPython targetArgs 0 (.ok <| frame zeroNonce smallData) (.ok zeroFile) (targetChecks ++ targetWrites)
      (.ok targetTold) :=
  ⟨restore_target, (restore_guarded restore_target).left⟩

end Restore

section Export

variable {euid : Nat} {snapshot : Except Raised Bytes} {key : Except Raised KeyFile} {output captured : String}
variable {nonce : Nonce} {told : PyValue}

-- What a later restore of the package reads is what the dump wrote, byte for byte, and it writes only behind the
-- answer that it is in another cluster.
theorem export_restores (hg : AesGcm py.toHost) (hb : Base64RoundTrips py)
    (h : (exportPackage py args output captured nonce euid snapshot key).Runs t (.ok told)) :
    ∃ source schema dump snap file k package, Exported py args snapshot source schema dump snap t ∧ key = .ok file ∧
      readKey euid file = .ok k ∧ (∃ out, (.write output package, .ok out) ∈ t) ∧
      (JsonRoundTrips py.toHost (payloadOf py captured source schema dump snap) →
        ∀ target euid' file' t' r, readKey euid' file' = .ok k →
          (restore py target euid' (.ok package) (.ok file')).Runs t' r →
          ∀ before entry after, t' = before ++ entry :: after →
            (∀ data ∈ entry.1.stdin, data = dump) ∧ (Looks target entry.1 ∨
              ∃ system, Reads py (psql target "postgres" systemQuery) system before ∧
                system ≠ source.systemIdentifier)) := by
  obtain ⟨source, schema, dump, snap, file, k, package, he, hfile, hk, hp, hw⟩ := exported_of_runs h
  refine ⟨source, schema, dump, snap, file, k, package, he, hfile, hk, hw, ?_⟩
  intro hj target euid' file' t' r hk' hr before entry after ht
  have hu : unsealPackage py.toHost package k = .ok ⟨payloadOf py captured source schema dump snap, dump, snap⟩ :=
    unseal_seal (length_readKey hk) hg hj (valid_payloadOf hb) hp
  obtain ⟨checks, rest, hsplit, hl, ha⟩ := guarded_of_runs hr
  -- The entry is one of the checks, or all of these stand before it.
  have hplace : entry ∈ checks ∨ checks ⊆ before ∧ entry ∈ rest := by
    rcases List.append_eq_append_iff.mp <| ht.symm.trans hsplit with ⟨late, hchecks, hrest⟩ | ⟨late, hbefore, hrest⟩
    · rcases late with _ | ⟨first, late⟩
      · rw [List.nil_append] at hrest
        exact .inr ⟨by simp [hchecks], by simp [← hrest]⟩
      · exact .inl <| by simp [hchecks, (List.cons.inj hrest).1]
    · exact .inr ⟨by simp [hbefore], by simp [hrest]⟩
  rcases hplace with hm | ⟨hc, hm⟩
  · refine ⟨fun data hd => ?_, .inl <| hl entry hm⟩
    rw [data_of_looks <| hl entry hm] at hd
    cases hd
  · obtain ⟨opened, ⟨raw, file'', k', hraw, hfile', hk'', ho⟩, hcl, hf, -⟩ := ha <| .inl <| List.ne_nil_of_mem hm
    obtain rfl := Except.ok.inj hraw
    obtain rfl := Except.ok.inj hfile'
    obtain rfl := Except.ok.inj <| hk'.symm.trans hk''
    obtain rfl := Except.ok.inj <| hu.symm.trans ho
    refine ⟨data_of_writes (hf.mem entry hm), .inr ?_⟩
    obtain ⟨system, hs, members, hsource, id, hid, hne⟩ := hcl.cluster
    obtain rfl := Except.ok.inj hsource
    obtain rfl := Except.ok.inj hid
    exact ⟨system, hs.mono hc, fun he => of_decide_eq_false hne he.symm⟩

-- What a command was answered, each time that it was.
def outputs (c : Call) (t : List (Call × Except Raised Bytes)) : List Bytes :=
  t.filterMap fun entry => if entry.1 = c then entry.2.toOption else none

theorem mem_outputs {c : Call} {out : Bytes} (h : (c, .ok out) ∈ t) : out ∈ outputs c t :=
  List.mem_filterMap.mpr ⟨_, h, by simp [Except.toOption]⟩

theorem outputs_small : outputs (psql smallArgs "gateway" systemQuery) smallRun = [ascii "7"] ∧
    outputs (psql smallArgs "gateway" versionQuery) smallRun = [ascii "170004"] ∧
    outputs (pgDump smallArgs) smallRun = [[68]] := by
  decide +kernel

-- What the answers of the small run make of the package.
theorem exported_small {source : Identity} {schema : PyValue} {dump snap : Bytes}
    (h : Exported smallPython smallArgs (.ok <| ascii snapText) source schema dump snap smallRun) :
    source = ⟨"7", 17⟩ ∧ schema = .int 1 ∧ dump = [68] ∧ snap = ascii snapText := by
  obtain ⟨hs, hv, hd⟩ := outputs_small
  obtain ⟨system, major⟩ := source
  obtain ⟨out, hm, ht⟩ := h.cluster
  obtain rfl := List.mem_singleton.mp <| hs ▸ mem_outputs hm
  obtain ⟨_, _, ⟨out, hm, hv'⟩, hi, hj⟩ := h.major
  obtain rfl := List.mem_singleton.mp <| hv ▸ mem_outputs hm
  obtain rfl := List.mem_singleton.mp <| hd ▸ mem_outputs h.dump
  obtain rfl := Except.ok.inj h.snapshot
  obtain ⟨doc, hdoc, hschema⟩ := h.schema
  obtain rfl := Except.ok.inj <| loads_snap.symm.trans hdoc
  obtain rfl := Except.ok.inj ht
  obtain rfl := Except.ok.inj hv'
  obtain rfl := Except.ok.inj hi
  obtain rfl := Except.ok.inj hschema
  exact ⟨congrArg₂ Identity.mk (by decide) hj, rfl, rfl, rfl⟩

theorem package_small {package out : Bytes} (h : (.write "package" package, .ok out) ∈ smallRun) :
    package = frame zeroNonce smallData := by
  simp only [smallRun, psql, pgDump, List.mem_cons, Prod.mk.injEq, Call.write.injEq, reduceCtorEq, false_and,
    List.not_mem_nil, or_false, false_or] at h
  exact h.1.2

theorem small_export_restores :
    (exportPackage smallPython smallArgs "package" "2026-01-01T00:00:00+00:00" zeroNonce 0 (.ok <| ascii snapText)
      (.ok zeroFile)).Runs smallRun (.ok smallTold) ∧
    (restore smallPython targetArgs 0 (.ok <| frame zeroNonce smallData) (.ok zeroFile)).Runs
      (targetChecks ++ targetWrites) (.ok targetTold) ∧
    ∀ before entry after, targetChecks ++ targetWrites = before ++ entry :: after →
      (∀ data ∈ entry.1.stdin, data = [68]) ∧ (Looks targetArgs entry.1 ∨
        ∃ system, Reads smallPython (psql targetArgs "postgres" systemQuery) system before ∧ system ≠ "7") := by
  refine ⟨export_small, restore_target, ?_⟩
  obtain ⟨source, schema, dump, snap, file, k, package, he, hfile, hk, ⟨out, hw⟩, hr⟩ :=
    export_restores small_aesGcm small_base64 export_small
  obtain ⟨rfl, rfl, rfl, rfl⟩ := exported_small he
  obtain rfl := Except.ok.inj hfile
  obtain rfl := package_small hw
  exact hr (payloadOf_small ▸ small_json) targetArgs 0 zeroFile _ _ hk restore_target

end Export

end Recovery

import LoxilbUi.Library.Base64
import LoxilbUi.Recovery.SnapshotDbPackage
import Mathlib.Logic.Basic

-- What is sealed is read back, and whatever else is read raises the one error.

namespace Recovery

variable {host : Host} {payload : PyValue} {raw package key data : Bytes} {nonce : Nonce} {opened : Opened}

section Except

variable {α β : Type} {x : Except Raised α} {f : α → Except Raised β} {b : β} {e : Raised}

theorem bind_eq_ok : (x >>= f) = .ok b ↔ ∃ a, x = .ok a ∧ f a = .ok b := by
  cases x
  case error => simp [bind, Except.bind]
  case ok    => simp [bind, Except.bind]

theorem require_eq_ok {c : Bool} {message : String} {u : Unit} :
    require c message = .ok u ↔ c = true := by
  cases c <;> simp [require]

theorem return_eq_ok {a : β} : (pure a : Except Raised β) = .ok b ↔ a = b := by
  simp [pure, Except.pure]

end Except

-- A member of the payload, and what holds of it.
def Member (payload : PyValue) (key : String) (p : PyValue → Prop) : Prop :=
  ∃ v, payload.item key = .ok v ∧ p v

-- A payload of format 1, with what its two members decode to and their digests.
structure Valid (host : Host) (opened : Opened) : Prop where
  format         : Member opened.payload "format" (·.eqInt 1 = true)
  dump           : Member opened.payload "dump" (host.b64decode · = .ok opened.dump)
  snapshot       : Member opened.payload "snapshot" (host.b64decode · = .ok opened.snapshot)
  dumpDigest     : Member opened.payload "dump_sha256" (·.eqStr (host.sha256 opened.dump) = true)
  snapshotDigest : Member opened.payload "snapshot_sha256" (·.eqStr (host.sha256 opened.snapshot) = true)

theorem contents_eq_ok : contents host raw key = .ok opened ↔
    ∃ text, host.decrypt key ((raw.drop 8).take 12) (raw.drop 20) aad = .ok text ∧
      host.loads text = .ok opened.payload ∧ Valid host opened := by
  simp only [contents, bind_eq_ok, require_eq_ok, return_eq_ok]
  constructor
  case mp =>
    rintro ⟨text, ht, payload, hp, f, hf, _, hv, d, hd, dump, hb, s, hs, snapshot, hc, dd, hdd, _, he, sd, hsd, _, hg, rfl⟩
    exact ⟨text, ht, hp, ⟨f, hf, hv⟩, ⟨d, hd, hb⟩, ⟨s, hs, hc⟩, ⟨dd, hdd, he⟩, ⟨sd, hsd, hg⟩⟩
  case mpr =>
    rintro ⟨text, ht, hp, ⟨f, hf, hv⟩, ⟨d, hd, hb⟩, ⟨s, hs, hc⟩, ⟨dd, hdd, he⟩, ⟨sd, hsd, hg⟩⟩
    exact ⟨text, ht, opened.payload, hp, f, hf, (), hv, d, hd, opened.dump, hb, s, hs, opened.snapshot, hc,
      dd, hdd, (), he, sd, hsd, (), hg, rfl⟩

-- What is known of AES-GCM with a key of 32 bytes: what it encrypts is decrypted, nothing else is, and the
-- tag takes 16 bytes.
structure AesGcm (host : Host) : Prop where
  inverts   : ∀ {key nonce text aad data}, key.length = 32 → host.encrypt key nonce text aad = .ok data →
    host.decrypt key nonce data aad = .ok text
  authentic : ∀ {key nonce text aad data}, key.length = 32 → host.decrypt key nonce data aad = .ok text →
    host.encrypt key nonce text aad = .ok data
  tag       : ∀ {key nonce text aad data}, key.length = 32 → host.encrypt key nonce text aad = .ok data →
    data.length = text.length + 16

def JsonRoundTrips (host : Host) (payload : PyValue) : Prop :=
  ∀ text, host.dumps payload = .ok text → host.loads text = .ok payload

section Frame

def frame (nonce : Nonce) (data : Bytes) : Bytes :=
  magic ++ nonce.toList ++ data

theorem length_magic : magic.length = 8 := by
  decide

theorem length_header : (magic ++ nonce.toList).length = 20 := by
  rw [List.length_append, length_magic, Vector.length_toList]

theorem frame_nonce : ((frame nonce data).drop 8).take 12 = nonce.toList := by
  rw [frame, List.append_assoc, List.drop_left' length_magic, List.take_left' Vector.length_toList]

theorem frame_data : (frame nonce data).drop 20 = data := by
  rw [frame, List.drop_left' length_header]

theorem length_frame : (frame nonce data).length = data.length + 20 := by
  rw [frame, List.length_append, length_header, Nat.add_comm]

-- A text that begins as a package does and is long enough is the frame of what stands in it.
theorem exists_frame (hm : magic <+: raw) (hl : 20 ≤ raw.length) :
    ∃ nonce : Nonce, nonce.toList = (raw.drop 8).take 12 ∧ raw = frame nonce (raw.drop 20) := by
  obtain ⟨rest, rfl⟩ := hm
  have hn : (rest.take 12).length = 12 := by
    rw [List.length_append, length_magic] at hl
    rw [List.length_take]
    omega
  have hd : (magic ++ rest).drop 8 = rest := List.drop_left' length_magic
  refine ⟨⟨(rest.take 12).toArray, by simpa using hn⟩, by simp [hd], ?_⟩
  have hr : (magic ++ rest).drop 20 = rest.drop 12 := by
    rw [← List.drop_drop (i := 12) (j := 8), hd]
  simp [frame, hr]

end Frame

section Package

theorem sealPackage_eq_ok : sealPackage host nonce payload key = .ok package ↔
    ∃ text, host.dumps payload = .ok text ∧ text.length ≤ maxPackage ∧
      ∃ data, host.encrypt key nonce.toList text aad = .ok data ∧ frame nonce data = package := by
  simp only [sealPackage, bind_eq_ok, require_eq_ok, return_eq_ok, decide_eq_true_eq, frame]
  exact ⟨fun ⟨t, ht, _, hl, h⟩ => ⟨t, ht, hl, h⟩, fun ⟨t, ht, hl, h⟩ => ⟨t, ht, (), hl, h⟩⟩

theorem unsealPackage_eq_ok : unsealPackage host raw key = .ok opened ↔
    (magic <+: raw ∧ raw.length ≤ maxPackage + 64) ∧ contents host raw key = .ok opened := by
  rw [unsealPackage]
  split
  case isTrue h =>
    have hn : ¬(magic <+: raw ∧ raw.length ≤ maxPackage + 64) := by
      simp only [Bool.or_eq_true, Bool.not_eq_true', decide_eq_true_eq] at h
      rintro ⟨hm, hl⟩
      rw [List.isPrefixOf_iff_prefix.mpr hm] at h
      simp at h
      omega
    simp [hn]
  case isFalse h =>
    have hy : magic <+: raw ∧ raw.length ≤ maxPackage + 64 := by
      simpa [List.isPrefixOf_iff_prefix] using h
    cases contents host raw key <;> simp [hy]

-- The reader takes every length that the writer makes.
theorem unseal_seal (hk : key.length = 32) (hg : AesGcm host) (hj : JsonRoundTrips host opened.payload)
    (hv : Valid host opened) (hs : sealPackage host nonce opened.payload key = .ok package) :
    unsealPackage host package key = .ok opened := by
  obtain ⟨text, ht, hl, data, hd, rfl⟩ := sealPackage_eq_ok.mp hs
  have hb : data.length = text.length + 16 := hg.tag hk hd
  refine unsealPackage_eq_ok.mpr ⟨⟨⟨nonce.toList ++ data, ?_⟩, ?_⟩, ?_⟩
  · rw [frame, List.append_assoc]
  · rw [length_frame]
    omega
  · rw [contents_eq_ok, frame_nonce, frame_data]
    exact ⟨text, hg.inverts hk hd, hj text ht, hv⟩

theorem unseal_outcome (host : Host) (raw key : Bytes) :
    (∃ opened, unsealPackage host raw key = .ok opened ∧ Valid host opened) ∨
    ∃ message, unsealPackage host raw key = .error (.recovery message) := by
  cases h : unsealPackage host raw key
  case ok opened =>
    obtain ⟨_, _, _, hv⟩ := contents_eq_ok.mp (unsealPackage_eq_ok.mp h).right
    exact .inl ⟨opened, rfl, hv⟩
  case error e =>
    refine .inr ?_
    rw [unsealPackage] at h
    split at h
    case isTrue => exact ⟨_, h.symm⟩
    case isFalse =>
      split at h
      case h_1 => contradiction
      case h_2 => exact ⟨_, h.symm⟩

-- What is read has been sealed with the key.
theorem frame_of_unseal (hk : key.length = 32) (hg : AesGcm host)
    (h : unsealPackage host raw key = .ok opened) :
    ∃ (nonce : Nonce) (text data : Bytes), host.encrypt key nonce.toList text aad = .ok data ∧
      host.loads text = .ok opened.payload ∧ raw = frame nonce data := by
  obtain ⟨⟨hm, -⟩, hc⟩ := unsealPackage_eq_ok.mp h
  obtain ⟨text, hd, hp, -⟩ := contents_eq_ok.mp hc
  have he := hg.authentic hk hd
  have hl : 20 ≤ raw.length := by
    have ht := hg.tag hk he
    rw [List.length_drop] at ht
    omega
  obtain ⟨nonce, hn, hr⟩ := exists_frame hm hl
  exact ⟨nonce, text, raw.drop 20, hn ▸ he, hp, hr⟩

theorem package_round_trip (hk : key.length = 32) (hg : AesGcm host) :
    (∀ nonce opened package, JsonRoundTrips host opened.payload → Valid host opened →
      sealPackage host nonce opened.payload key = .ok package →
      unsealPackage host package key = .ok opened) ∧
    (∀ raw key, (∃ opened, unsealPackage host raw key = .ok opened ∧ Valid host opened) ∨
      ∃ message, unsealPackage host raw key = .error (.recovery message)) ∧
    ∀ raw opened, unsealPackage host raw key = .ok opened →
      ∃ (nonce : Nonce) (text data : Bytes), host.encrypt key nonce.toList text aad = .ok data ∧
        host.loads text = .ok opened.payload ∧ raw = frame nonce data :=
  ⟨fun _ _ _ => unseal_seal hk hg, unseal_outcome host, fun _ _ => frame_of_unseal hk hg⟩

-- `"key":"value"`
def memberText (key value : String) : String :=
  "\"" ++ key ++ "\":\"" ++ value ++ "\""

theorem length_memberText (key value : String) : (memberText key value).length = key.length + value.length + 5 := by
  have hq : "\"".length = 1 ∧ "\":\"".length = 3 := by decide
  simp only [memberText, String.length_append, hq]
  omega

def zeroKey : Bytes :=
  .replicate 32 0

def zeroNonce : Nonce :=
  .replicate 12 0

def dumpDigest : String :=
  "3f39d5c348e5b79d06e842c114e6cc571583bbf44e4b0ebfda1a01ec05745d43"

def snapDigest : String :=
  "afff671f2bc0de989a398f4f29d569bc353bc0f210853ba5435ef22b21493f70"

def snapText : String :=
  "\x7b" ++ memberText "kind" "loxilb-snapshot" ++ "," ++ memberText "checksum" "c" ++ ",\"schema_version\":1\x7d"

-- The text of a package of one byte.
def smallText : Bytes :=
  ascii <| "\x7b\"format\":1," ++ memberText "captured_utc" "2026-01-01T00:00:00+00:00" ++ ",\"source\":\x7b" ++
    memberText "system_identifier" "7" ++ ",\"postgres_major\":17\x7d,\"snapshot_schema\":1," ++
    memberText "dump_sha256" dumpDigest ++ "," ++ memberText "snapshot_sha256" snapDigest ++ "," ++
    memberText "dump" (Base64.encode [68]) ++ "," ++ memberText "snapshot" (Base64.encode <| ascii snapText) ++ "," ++
    memberText "management_sessions" "excluded" ++ "," ++
    memberText "restore_policy" "new-isolated-cluster-db-all-api-keys-disabled" ++ "\x7d"

-- Under a key and a nonce of zeros.
def smallData : Bytes :=
  [181, 133, 38, 82, 63, 13, 10, 26, 37, 116, 244, 255, 152, 144, 252, 104, 6, 21, 113, 175, 83, 249, 95, 0,
    178, 128, 207, 172, 71, 54, 7, 184, 240, 122, 128, 5, 125, 123, 181, 75, 113, 210, 105, 20, 125, 60, 6,
    220, 119, 113, 241, 209, 177, 153, 83, 18, 18, 19, 104, 145, 200, 105, 24, 37, 171, 230, 252, 10, 82,
    220, 72, 90, 63, 252, 200, 133, 47, 229, 14, 198, 213, 202, 59, 146, 250, 236, 145, 15, 202, 158, 108,
    9, 39, 42, 122, 223, 206, 137, 40, 160, 15, 239, 181, 86, 125, 138, 140, 242, 152, 0, 222, 90, 212, 107,
    145, 216, 64, 88, 148, 172, 16, 228, 223, 107, 254, 118, 66, 40, 114, 78, 224, 223, 19, 181, 132, 238,
    68, 148, 137, 6, 25, 170, 241, 188, 131, 39, 36, 165, 219, 22, 93, 203, 214, 57, 205, 82, 157, 103, 226,
    64, 223, 17, 221, 216, 203, 99, 223, 87, 142, 105, 129, 230, 71, 51, 190, 255, 196, 83, 23, 102, 81,
    104, 2, 22, 152, 106, 144, 29, 153, 98, 65, 4, 16, 239, 25, 241, 42, 100, 212, 123, 150, 202, 50, 210,
    50, 150, 59, 242, 131, 149, 60, 6, 239, 232, 71, 145, 218, 2, 186, 12, 119, 164, 214, 79, 38, 165, 150,
    120, 70, 204, 34, 219, 143, 237, 96, 212, 56, 186, 51, 68, 45, 230, 187, 11, 187, 249, 134, 166, 25, 96,
    149, 53, 157, 166, 214, 13, 25, 89, 100, 65, 50, 26, 115, 146, 237, 148, 217, 163, 142, 132, 158, 46,
    126, 102, 65, 20, 0, 46, 243, 85, 160, 57, 62, 79, 2, 121, 154, 118, 152, 240, 238, 193, 189, 115, 172,
    0, 40, 13, 160, 121, 4, 110, 72, 241, 29, 115, 86, 166, 92, 223, 96, 245, 164, 111, 136, 212, 130, 143,
    26, 156, 92, 190, 54, 11, 88, 50, 76, 156, 106, 129, 160, 247, 25, 174, 150, 224, 83, 137, 214, 203,
    117, 147, 236, 96, 238, 151, 113, 116, 49, 116, 181, 204, 191, 173, 229, 70, 97, 231, 150, 12, 206, 124,
    191, 45, 216, 43, 72, 217, 165, 146, 195, 111, 148, 8, 245, 31, 30, 60, 50, 7, 196, 180, 220, 27, 243,
    0, 161, 39, 238, 246, 208, 196, 110, 157, 159, 128, 229, 27, 54, 235, 113, 141, 145, 244, 255, 188, 20,
    76, 138, 75, 218, 137, 185, 41, 187, 192, 195, 159, 111, 190, 74, 177, 181, 37, 177, 235, 215, 111, 156,
    142, 178, 146, 108, 69, 212, 213, 234, 194, 1, 109, 237, 89, 114, 143, 242, 239, 28, 93, 201, 105, 85,
    161, 10, 119, 157, 90, 13, 94, 3, 137, 197, 65, 164, 29, 252, 25, 213, 198, 21, 216, 18, 83, 100, 36,
    66, 246, 149, 244, 78, 230, 36, 65, 233, 94, 83, 225, 194, 78, 183, 56, 55, 204, 32, 212, 240, 47, 38,
    226, 24, 199, 157, 219, 228, 174, 219, 153, 184, 218, 63, 46, 210, 152, 93, 168, 17, 248, 138, 118]

def smallPayload : PyValue :=
  .dict [
    ("format", .int 1), ("captured_utc", .str "2026-01-01T00:00:00+00:00"),
    ("source", .dict [("system_identifier", .str "7"), ("postgres_major", .int 17)]),
    ("snapshot_schema", .int 1), ("dump_sha256", .str dumpDigest), ("snapshot_sha256", .str snapDigest),
    ("dump", .str <| Base64.encode [68]), ("snapshot", .str <| Base64.encode <| ascii snapText),
    ("management_sessions", .str "excluded"), ("restore_policy", .str "new-isolated-cluster-db-all-api-keys-disabled")]

def readBase64 : PyValue → Except Raised Bytes
  | .str s => match Base64.read <| Base64.unpad s.toList with
    | some data => .ok data
    | none      => .error <| .other "Error"
  | _      => .error <| .other "TypeError"

-- A host that knows this package and no other.
def smallHost : Host where
  dumps _     := .ok smallText
  loads text  := if text = smallText then .ok smallPayload else .error <| .other "JSONDecodeError"
  b64decode   := readBase64
  sha256 data := if data = [68] then dumpDigest else snapDigest
  encrypt key nonce text aad' :=
    if (key, nonce, text, aad') = (zeroKey, zeroNonce.toList, smallText, aad) then .ok smallData
    else .error <| .other "OverflowError"
  decrypt key nonce data aad' :=
    if (key, nonce, data, aad') = (zeroKey, zeroNonce.toList, smallData, aad) then .ok smallText
    else .error <| .other "InvalidTag"

theorem length_smallText : smallText.length = 502 := by
  have hd : dumpDigest.length = 64 ∧ snapDigest.length = 64 := by decide
  have he : (Base64.encode [68]).length = 4 := by decide
  have hs : (Base64.encode <| ascii snapText).length = 80 := by decide +kernel
  simp only [smallText, ascii, List.length_map, String.length_toList, String.length_append, length_memberText, hd]
  rw [he, ← ascii, hs]
  decide

theorem smallHost_aesGcm : AesGcm smallHost where
  inverts _ h := by
    simp only [smallHost] at h ⊢
    split at h
    case isTrue he  =>
      simp only [Prod.mk.injEq] at he
      simp [← Except.ok.inj h, he]
    case isFalse    => contradiction
  authentic _ h := by
    simp only [smallHost] at h ⊢
    split at h
    case isTrue he  =>
      simp only [Prod.mk.injEq] at he
      simp [← Except.ok.inj h, he]
    case isFalse    => contradiction
  tag _ h := by
    simp only [smallHost] at h
    split at h
    case isTrue he  =>
      simp only [Prod.mk.injEq] at he
      rw [← Except.ok.inj h, he.right.right.left, length_smallText]
      decide +kernel
    case isFalse    => contradiction

theorem smallHost_base64 (data : Bytes) : smallHost.b64decode (.str <| Base64.encode data) = .ok data := by
  simp [smallHost, readBase64, Base64.read_encode]

theorem smallHost_valid : Valid smallHost ⟨smallPayload, [68], ascii snapText⟩ where
  format         := ⟨_, rfl, rfl⟩
  dump           := ⟨_, rfl, smallHost_base64 _⟩
  snapshot       := ⟨_, rfl, smallHost_base64 _⟩
  dumpDigest     := ⟨_, rfl, by decide⟩
  snapshotDigest := ⟨_, rfl, by decide +kernel⟩

theorem seal_small : sealPackage smallHost zeroNonce smallPayload zeroKey = .ok (frame zeroNonce smallData) :=
  sealPackage_eq_ok.mpr ⟨smallText, rfl, by rw [length_smallText]; decide, smallData, by simp [smallHost], rfl⟩

theorem small_round_trip :
    zeroKey.length = 32 ∧
    sealPackage smallHost zeroNonce smallPayload zeroKey = .ok (frame zeroNonce smallData) ∧
    unsealPackage smallHost (frame zeroNonce smallData) zeroKey = .ok ⟨smallPayload, [68], ascii snapText⟩ := by
  have hk : zeroKey.length = 32 := by decide
  have hj : JsonRoundTrips smallHost smallPayload := by
    intro text ht
    obtain rfl := Except.ok.inj ht
    simp [smallHost]
  have h := (package_round_trip hk smallHost_aesGcm).left _ ⟨smallPayload, [68], ascii snapText⟩ _ hj
    smallHost_valid seal_small
  exact ⟨hk, seal_small, h⟩

end Package
end Recovery

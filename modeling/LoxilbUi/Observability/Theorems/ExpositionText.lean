import LoxilbUi.Observability.Theorems.Exposition
import LoxilbUi.Observability.Theorems.ExpositionLines

-- A written exposition is parsed into the families that were written, and the older reading of it gives
-- the same sums.

namespace Exposition

open Observability Parser Pattern

section Document

-- What an exporter writes of one family.
structure Block where
  name   : String
  help   : Option String
  token  : Option String
  rows   : List Row
  named  : name.toList ∈ nameRe.lang
  helped : ∀ text ∈ help, Tail (text.toList.flatMap escapeHelp)
  typed  : ∀ t ∈ token, Tail t.toList
  told   : help ≠ none ∨ token ≠ none ∨ rows ≠ []

namespace Block

def helpLine (b : Block) (text : String) : List Char :=
  commentLine "HELP" b.name <| text.toList.flatMap escapeHelp

def typeLine (b : Block) (token : String) : List Char :=
  commentLine "TYPE" b.name token.toList

def lines (b : Block) : List (List Char) :=
  (b.help.map b.helpLine).toList ++ (b.token.map b.typeLine).toList ++ b.rows.map (·.line)

def family (b : Block) : ParsedFamily where
  name    := b.name
  type    := (b.token.map typeOf).getD .untyped
  rawType := b.token.bind rawTypeOf
  help    := b.help
  samples := b.rows.map Row.read

end Block

def write (blocks : List Block) : String :=
  "\n".intercalate <| (blocks.flatMap Block.lines).map .ofList

-- A family whose type folds the suffix of a name has the name.
def Claims (b : Block) (name : String) : Prop :=
  ∃ suffix ∈ suffixes, ∃ token ∈ b.token, folds token suffix = true ∧ name = b.name ++ suffix

-- Each sample stands in its family, no family is written twice, no series is, and no limit is broken.
structure WellFormed (blocks : List Block) : Prop where
  names  : (blocks.map Block.name).Nodup
  placed : ∀ before b after, blocks = before ++ b :: after → ∀ row ∈ b.rows,
    Claims b row.sample.name ∨ row.sample.name = b.name ∧ ∀ b' ∈ before ++ [b], ¬Claims b' row.sample.name
  series : ∀ b ∈ blocks, b.rows.Pairwise fun r r' =>
    ¬(r.sample.name = r'.sample.name ∧ ∀ k, r.sample.labels.get? k = r'.sample.labels.get? k)
  lines  : ∀ b ∈ blocks, ∀ l ∈ b.lines, JsString.length (.ofList l) ≤ Limits.lineLength
  count  : (blocks.flatMap Block.rows).length ≤ Limits.sampleCount
  body   : JsString.length (write blocks) ≤ Limits.bodyBytes

section Served

theorem named_bucket : "latency_bucket".toList ∈ nameRe.lang :=
  Regex.test_iff.mp <| by decide

theorem named_sum : "latency_sum".toList ∈ nameRe.lang :=
  Regex.test_iff.mp <| by decide

theorem named_latency : "latency".toList ∈ nameRe.lang :=
  Regex.test_iff.mp <| by decide

theorem readable_path {name path : String} {q : ℚ} (h : JsString.length path ≤ Limits.labelLength) :
    Readable (Metrics.sampleOf name path q).labels :=
  readable_empty.assign (k := "path") (by decide) (List.all_eq_true.mp <| by decide) h

theorem readable_quoted {name : String} {q : ℚ} : Readable (Metrics.sampleOf name "a\"b" q).labels :=
  readable_path <| by decide

theorem readable_root {name : String} {q : ℚ} : Readable (Metrics.sampleOf name "/" q).labels :=
  readable_path <| by decide

theorem decimal_noon : "1700000000000".toList ∈ decimal.lang :=
  Regex.test_iff.mp <| by decide

theorem read_noon : finiteNumber (.ofList "1700000000000".toList) = some 1700000000000 := by
  decide +kernel

def noon : Stamp where
  gap     := [' ']
  text    := "1700000000000".toList
  ms      := 1700000000000
  gapped  := Metrics.gapped_blank
  decimal := decimal_noon
  read    := read_noon

-- A sample with no time, whose label has to be escaped.
def quotedRow (name : String) (h : name.toList ∈ nameRe.lang) : Row where
  toRow    := Metrics.tenthRow name "a\"b" h
  time     := none
  timed    := rfl
  readable := readable_quoted

def timedRow (name : String) (h : name.toList ∈ nameRe.lang) : Row where
  toRow    := Metrics.twoTenthsRow name "/" h
  time     := some noon
  timed    := rfl
  readable := readable_root

theorem tail_of_word {t : List Char} (h : t.all (!isLineEnd ·) = true)
    (ht : JsString.trim (.ofList t) = .ofList t) : Tail t where
  oneLine c hc := by simpa using List.all_eq_true.mp h c hc
  trimmed      := ht

theorem helped_latency : ∀ text ∈ some "time \\ spent\nserving", Tail (text.toList.flatMap escapeHelp) := by
  rintro _ ⟨⟩
  exact tail_of_word (by decide) (by decide)

theorem typed_histogram : ∀ t ∈ some "histogram", Tail t.toList := by
  rintro _ ⟨⟩
  exact tail_of_word (by decide) (by decide)

theorem typed_gauge : ∀ t ∈ some "gauge", Tail t.toList := by
  rintro _ ⟨⟩
  exact tail_of_word (by decide) (by decide)

theorem helped_none : ∀ text ∈ (none : Option String), Tail (text.toList.flatMap escapeHelp) := by
  simp

def latencyBlock : Block where
  name   := "latency"
  help   := some "time \\ spent\nserving"
  token  := some "histogram"
  rows   := [quotedRow "latency_bucket" named_bucket, timedRow "latency_bucket" named_bucket,
    quotedRow "latency_sum" named_sum]
  named  := named_latency
  helped := helped_latency
  typed  := typed_histogram
  told   := .inl <| Option.some_ne_none _

def loadBlock : Block where
  name   := "load"
  help   := none
  token  := some "gauge"
  rows   := [timedRow "load" Metrics.named_load]
  named  := Metrics.named_load
  helped := helped_none
  typed  := typed_gauge
  told   := .inr <| .inl <| Option.some_ne_none _

-- A histogram and a gauge.
def served : List Block :=
  [latencyBlock, loadBlock]

theorem claims_bucket : Claims latencyBlock "latency_bucket" :=
  ⟨"_bucket", by decide, "histogram", rfl, by decide, by decide⟩

theorem claims_sum : Claims latencyBlock "latency_sum" :=
  ⟨"_sum", by decide, "histogram", rfl, by decide, by decide⟩

theorem row_served : ∀ b ∈ served, ∀ row ∈ b.rows, ∃ name, ∃ h : name.toList ∈ nameRe.lang,
    row = quotedRow name h ∨ row = timedRow name h := by
  intro b hb row hr
  have hb : b ∈ [latencyBlock, loadBlock] := hb
  simp only [List.mem_cons, List.not_mem_nil, or_false] at hb
  obtain rfl | rfl := hb
  · have hr : row ∈ [quotedRow "latency_bucket" named_bucket, timedRow "latency_bucket" named_bucket,
      quotedRow "latency_sum" named_sum] := hr
    simp only [List.mem_cons, List.not_mem_nil, or_false] at hr
    obtain rfl | rfl | rfl := hr
    · exact ⟨_, _, .inl rfl⟩
    · exact ⟨_, _, .inr rfl⟩
    · exact ⟨_, _, .inl rfl⟩
  · exact ⟨_, _, .inr <| List.mem_singleton.mp hr⟩

theorem placed_latency : ∀ row ∈ latencyBlock.rows, Claims latencyBlock row.sample.name := by
  intro row hr
  have hr : row ∈ [quotedRow "latency_bucket" named_bucket, timedRow "latency_bucket" named_bucket,
    quotedRow "latency_sum" named_sum] := hr
  simp only [List.mem_cons, List.not_mem_nil, or_false] at hr
  obtain rfl | rfl | rfl := hr
  · exact claims_bucket
  · exact claims_bucket
  · exact claims_sum

theorem not_claims_load : ∀ b ∈ served, ¬Claims b "load" := by
  intro b hb
  have hb : b ∈ [latencyBlock, loadBlock] := hb
  simp only [List.mem_cons, List.not_mem_nil, or_false] at hb
  obtain rfl | rfl := hb
  · rintro ⟨suffix, hs, _, -, -, h⟩
    simp only [suffixes, List.mem_cons, List.not_mem_nil, or_false] at hs
    obtain rfl | rfl | rfl := hs <;> revert h <;> decide
  · rintro ⟨suffix, -, token, ht, hf, -⟩
    obtain rfl := Option.some.inj ht
    simp [folds] at hf

-- Two series.
def Apart (r r' : Row) : Prop :=
  ¬(r.sample.name = r'.sample.name ∧ ∀ k, r.sample.labels.get? k = r'.sample.labels.get? k)

theorem apart_path {r r' : Row} (h : r.sample.labels.get? "path" ≠ r'.sample.labels.get? "path") :
    Apart r r' :=
  fun ⟨_, hk⟩ => h (hk _)

theorem get?_sampleOf {name path : String} {q : ℚ} :
    (Metrics.sampleOf name path q).labels.get? "path" = some path :=
  rfl

theorem apart_quoted {name name' : String} {h : name.toList ∈ nameRe.lang} {h' : name'.toList ∈ nameRe.lang} :
    Apart (quotedRow name h) (timedRow name' h') ∧ Apart (timedRow name' h') (quotedRow name h) := by
  have hq : (quotedRow name h).sample.labels.get? "path" = some "a\"b" := get?_sampleOf
  have ht : (timedRow name' h').sample.labels.get? "path" = some "/" := get?_sampleOf
  constructor
  · refine apart_path ?_
    rw [hq, ht]
    decide
  · refine apart_path ?_
    rw [hq, ht]
    decide

theorem series_latency : latencyBlock.rows.Pairwise Apart := by
  refine .cons ?_ <| .cons ?_ <| List.pairwise_singleton ..
  case refine_1 =>
    refine List.forall_mem_cons.mpr ⟨apart_quoted.1, List.forall_mem_singleton.mpr ?_⟩
    rintro ⟨h, -⟩
    exact absurd h (by decide : "latency_bucket" ≠ "latency_sum")
  case refine_2 => exact List.forall_mem_singleton.mpr apart_quoted.2

theorem wellFormed_served : WellFormed served where
  names  := by decide
  placed := by
    intro before b after he row hr
    obtain ⟨rfl, rfl⟩ | ⟨rfl, rfl⟩ : before = [] ∧ b = latencyBlock ∨ before = [latencyBlock] ∧ b = loadBlock := by
      rcases before with _ | ⟨b₁, _ | ⟨b₂, before⟩⟩ <;> simp [served] at he
      · exact .inl ⟨rfl, he.1.symm⟩
      · exact .inr ⟨by rw [he.1], he.2.1.symm⟩
    · exact .inl <| placed_latency row hr
    · obtain rfl := List.mem_singleton.mp hr
      exact .inr ⟨rfl, not_claims_load⟩
  series := by
    intro b hb
    have hb : b ∈ [latencyBlock, loadBlock] := hb
    simp only [List.mem_cons, List.not_mem_nil, or_false] at hb
    obtain rfl | rfl := hb
    · exact series_latency
    · exact List.pairwise_singleton ..
  lines  := by
    have h : served.all (·.lines.all fun l => JsString.length (.ofList l) ≤ Limits.lineLength) = true := by
      decide +kernel
    simpa using h
  count  := by decide
  body   := by
    rw [write, JsString.length, String.toList_intercalate, List.map_map]
    decide +kernel

end Served

end Document

section Place

variable {name base base' suffix suffix' : String} {types : Dict String}

theorem suffix_inj (hs : suffix ∈ suffixes) (hs' : suffix' ∈ suffixes) (h : base ++ suffix = base' ++ suffix') :
    suffix = suffix' ∧ base = base' := by
  have hl := congrArg (fun s : String => s.toList.reverse.take 2) h
  have he : suffix = suffix' := by
    simp only [suffixes, List.mem_cons, List.not_mem_nil, or_false] at hs hs'
    obtain rfl | rfl | rfl := hs <;> obtain rfl | rfl | rfl := hs' <;> simp at hl ⊢
  subst he
  have ht : base.toList ++ suffix.toList = base'.toList ++ suffix.toList := by
    rw [← String.toList_append, ← String.toList_append, h]
  exact ⟨rfl, String.toList_inj.mp <| List.append_cancel_right ht⟩

theorem baseOf_append {token : String} (ht : types.get? base = some token) (hf : folds token suffix = true) :
    baseOf (base ++ suffix) types suffix = some base := by
  have he : JsString.endsWith (base ++ suffix) suffix = true := by
    rw [JsString.endsWith, List.isSuffixOf_iff_suffix, String.toList_append]
    exact List.suffix_append _ _
  rw [baseOf, if_pos he]
  simp [ht, hf]

theorem familyNameOf_append {token : String} (hs : suffix ∈ suffixes) (ht : types.get? base = some token)
    (hf : folds token suffix = true) : familyNameOf (base ++ suffix) types = base := by
  rw [familyNameOf]
  cases h : suffixes.findSome? (baseOf (base ++ suffix) types)
  case none =>
    rw [List.findSome?_eq_none_iff] at h
    have hn := h suffix hs
    rw [baseOf_append ht hf] at hn
    cases hn
  case some base' =>
    obtain ⟨suffix', hs', hb⟩ := List.exists_of_findSome?_eq_some h
    exact (suffix_inj hs hs' (baseOf_eq_some hb).1).2.symm

theorem familyNameOf_self (h : ∀ suffix ∈ suffixes, ∀ base token, name = base ++ suffix →
    types.get? base = some token → folds token suffix = false) : familyNameOf name types = name := by
  obtain he | ⟨suffix, hs, he, token, ht, hf⟩ := @familyNameOf_cases name types
  · exact he
  · rw [h suffix hs _ token he ht] at hf
    cases hf

end Place

section Held

variable {st : State} {b : Block} {f : Family} {n : Nat} {types : Dict String} {row : Row} {rows : List Row}
  {name : String} {rest : List Char}

-- A state with one family more, or another one in its place.
def State.hold (st : State) (name : String) (f : Family) (n : Nat) (types : Dict String) : State :=
  { st with families := st.families.set name f, typedFamilies := types, totalSamples := n }

theorem familyOf_hold : (st.hold name f n types).familyOf name = f := by
  simp [State.familyOf, State.hold]

theorem put_hold {g : Family} : (st.hold name f n types).put name g = st.hold name g n types := by
  simp [State.put, State.hold, Dict.set_set]

theorem help_hold : (st.hold name f n types).help name rest =
    st.hold name { f with help := some <| .ofList <| unescapeText rest } n types := by
  rw [State.help, familyOf_hold, put_hold]

theorem declare_hold : (st.hold name f n types).declare name rest = st.hold name
    { f with type := typeOf <| JsString.trim <| .ofList rest, rawType := rawTypeOf <| JsString.trim <| .ofList rest } n
    (types.set name <| JsString.trim <| .ofList rest) := by
  have hd : ({ st.hold name f n types with typedFamilies := types.set name <| JsString.trim <| .ofList rest } : State) =
      st.hold name f n (types.set name <| JsString.trim <| .ofList rest) := rfl
  simp only [State.declare]
  rw [show (st.hold name f n types).typedFamilies = types from rfl, hd, familyOf_hold, put_hold]

def pushRow (f : Family) (row : Row) : Family :=
  f.push row.read <| identityOf row.read

-- A series that its family does not hold.
def Fresh (f : Family) (row : Row) : Prop :=
  identityOf row.read ∉ f.seen

def State.addRow (st : State) (row : Row) : State :=
  st.add row.sample.name row.sample.labels row.sample.value <| row.time.map Stamp.ms

theorem addRow_hold (hf : familyNameOf row.sample.name types = name) (hn : Fresh f row) :
    (st.hold name f n types).addRow row = st.hold name (pushRow f row) (n + 1) types := by
  have ht : (st.hold name f n types).typedFamilies = types := rfl
  simp only [State.addRow, State.add, ht, hf, familyOf_hold, put_hold]
  exact if_neg hn

theorem seen_pushRow : (pushRow f row).seen = f.seen ++ [identityOf row.read] :=
  rfl

theorem addRows_hold (hf : ∀ row ∈ rows, familyNameOf row.sample.name types = name)
    (hn : (f.seen ++ rows.map fun row => identityOf row.read).Nodup) :
    rows.foldl State.addRow (st.hold name f n types) =
      st.hold name (rows.foldl pushRow f) (n + rows.length) types := by
  induction rows generalizing f n
  case nil => rfl
  case cons row rows hi =>
    obtain ⟨hrow, hf⟩ := List.forall_mem_cons.mp hf
    have hfresh : Fresh f row := fun hm => by
      rw [List.nodup_append] at hn
      exact hn.2.2 _ hm _ (by simp) rfl
    have hn : ((pushRow f row).seen ++ rows.map fun row => identityOf row.read).Nodup := by
      rw [seen_pushRow]
      simpa using hn
    rw [List.foldl_cons, addRow_hold hrow hfresh, hi hf hn, List.foldl_cons, List.length_cons, Nat.add_assoc,
      Nat.add_comm 1]

theorem foldl_pushRow : rows.foldl pushRow f =
    { f with samples := f.samples ++ rows.map Row.read, seen := f.seen ++ rows.map fun row => identityOf row.read } := by
  induction rows generalizing f
  case nil => simp
  case cons row rows hi =>
    rw [List.foldl_cons, hi]
    simp [pushRow, Family.push]

end Held

section Read

variable {st st' : State} {b : Block} {lines lines' : List String} {rows : List Row}

theorem readLines_append (h : readLines st lines = (st', none)) :
    readLines st (lines ++ lines') = readLines st' lines' := by
  induction lines generalizing st
  case nil =>
    obtain ⟨rfl, -⟩ := Prod.mk.inj h
    rfl
  case cons line lines hi =>
    rw [readLines] at h
    rw [List.cons_append, readLines]
    cases hs : readLine st line
    case error e =>
      rw [hs] at h
      cases h
    case ok st₁  =>
      rw [hs] at h
      exact hi h

theorem totalSamples_addRow {row : Row} : (st.addRow row).totalSamples ≤ st.totalSamples + 1 := by
  simp only [State.addRow, State.add]
  split
  · exact Nat.le_succ _
  · exact Nat.le_refl _

theorem readLines_rows (hl : ∀ row ∈ rows, JsString.length (.ofList row.line) ≤ Limits.lineLength)
    (hs : st.totalSamples + rows.length ≤ Limits.sampleCount) :
    readLines st (rows.map fun row => .ofList row.line) = (rows.foldl State.addRow st, none) := by
  induction rows generalizing st
  case nil => rfl
  case cons row rows hi =>
    obtain ⟨hrow, hl⟩ := List.forall_mem_cons.mp hl
    rw [List.length_cons] at hs
    have ht := @totalSamples_addRow st row
    rw [List.map_cons, readLines, row.readLine_line hrow (by omega)]
    exact @hi (st.addRow row) hl <| (Nat.add_le_add_right ht _).trans <| by omega

-- The names of the families that are declared, once a block is read.
def Block.types (b : Block) (types : Dict String) : Dict String :=
  b.token.elim types (types.set b.name ·)

-- A family as a block begins it.
def Block.head (b : Block) : Family where
  name    := b.name
  type    := (b.token.map typeOf).getD .untyped
  rawType := b.token.bind rawTypeOf
  help    := b.help
  samples := []
  seen    := []

def fresh (name : String) : Family :=
  ⟨name, .untyped, none, none, [], []⟩

-- What is read in a state that does not know the family is read in one that has begun it.
structure New (b : Block) (st : State) : Prop where
  family : st.families.get? b.name = none
  type   : st.typedFamilies.get? b.name = none

def State.begin (st : State) (b : Block) : State :=
  st.hold b.name (fresh b.name) st.totalSamples st.typedFamilies

theorem New.familyOf (h : New b st) : st.familyOf b.name = fresh b.name := by
  rw [State.familyOf, h.family, h.type]
  rfl

structure Fits (b : Block) (st : State) : Prop where
  lines  : ∀ l ∈ b.lines, JsString.length (.ofList l) ≤ Limits.lineLength
  count  : st.totalSamples + b.rows.length ≤ Limits.sampleCount
  placed : ∀ row ∈ b.rows, familyNameOf row.sample.name (b.types st.typedFamilies) = b.name
  series : (b.rows.map fun row => identityOf row.read).Nodup

variable {f : Family} {n : Nat} {types : Dict String}

theorem readLine_help {text : String} (hb : b.help = some text)
    (hl : JsString.length (.ofList <| b.helpLine text) ≤ Limits.lineLength) :
    readLine st (.ofList <| b.helpLine text) = .ok (st.help b.name <| text.toList.flatMap escapeHelp) :=
  readLine_comment (.inl rfl) b.named (b.helped text hb) hl

theorem readLine_type {token : String} (hb : b.token = some token)
    (hl : JsString.length (.ofList <| b.typeLine token) ≤ Limits.lineLength) :
    readLine st (.ofList <| b.typeLine token) = .ok (st.declare b.name token.toList) :=
  readLine_comment (.inr rfl) b.named (b.typed token hb) hl

theorem addRow_begin {row : Row} (h : New b st) (hf : familyNameOf row.sample.name st.typedFamilies = b.name) :
    (st.begin b).addRow row = st.addRow row := by
  have hn : Fresh (fresh b.name) row := List.not_mem_nil
  rw [State.begin, addRow_hold hf hn]
  simp only [State.addRow, State.add, hf, h.familyOf]
  exact (if_neg hn).symm

theorem readLines_congr {l : String} {st₁ : State} (hs : readLine st l = .ok st₁) (h : readLine st l = readLine st' l) :
    readLines st (l :: lines) = readLines st' (l :: lines) := by
  rw [readLines, readLines, ← h, hs]

-- The first line of a block begins its family.
theorem readLines_begin (h : New b st) (hf : Fits b st) :
    readLines st (b.lines.map .ofList) = readLines (st.begin b) (b.lines.map .ofList) := by
  cases hh : b.help
  case some text =>
    have hl := hf.lines (b.helpLine text) <| by simp [Block.lines, hh]
    have he : readLine st (.ofList <| b.helpLine text) = readLine (st.begin b) (.ofList <| b.helpLine text) := by
      rw [readLine_help hh hl, readLine_help hh hl, State.begin, help_hold, State.help, h.familyOf]
      rfl
    simpa [Block.lines, hh] using readLines_congr (readLine_help hh hl) he
  case none =>
    cases ht : b.token
    case some token =>
      have hl := hf.lines (b.typeLine token) <| by simp [Block.lines, ht]
      have he : readLine st (.ofList <| b.typeLine token) = readLine (st.begin b) (.ofList <| b.typeLine token) := by
        rw [readLine_type ht hl, readLine_type ht hl, State.begin, declare_hold]
        simp [State.declare, State.familyOf, h.family, State.put, State.hold, fresh]
      simpa [Block.lines, hh, ht] using readLines_congr (readLine_type ht hl) he
    case none =>
      obtain ⟨row, rows, hr⟩ := List.exists_cons_of_ne_nil <|
        (b.told.resolve_left (not_not_intro hh)).resolve_left (not_not_intro ht)
      have hl := hf.lines row.line <| by simp [Block.lines, hr]
      have hc := hf.count
      rw [hr, List.length_cons] at hc
      have hp := hf.placed row <| hr ▸ .head _
      rw [Block.types, ht, Option.elim_none] at hp
      have hc : st.totalSamples + 1 ≤ Limits.sampleCount := by omega
      have hc' : (st.begin b).totalSamples + 1 ≤ Limits.sampleCount := hc
      have he : readLine st (.ofList row.line) = readLine (st.begin b) (.ofList row.line) := by
        rw [row.readLine_line hl hc, row.readLine_line hl hc', ← State.addRow, ← State.addRow, addRow_begin h hp]
      simpa [Block.lines, hh, ht, hr] using readLines_congr (row.readLine_line hl hc) he

theorem readLines_block (h : New b st) (hf : Fits b st) : readLines st (b.lines.map .ofList) =
    (st.hold b.name (b.rows.foldl pushRow b.head) (st.totalSamples + b.rows.length) (b.types st.typedFamilies), none) := by
  have hhelp : readLines (st.begin b) ((b.help.map b.helpLine).toList.map .ofList) =
      (st.hold b.name { fresh b.name with help := b.help } st.totalSamples st.typedFamilies, none) := by
    cases hh : b.help
    case none      => rfl
    case some text =>
      have hl := hf.lines (b.helpLine text) <| by simp [Block.lines, hh]
      simp only [Option.map_some, Option.toList_some, List.map_cons, List.map_nil, readLines, readLine_help hh hl]
      rw [State.begin, help_hold, unescapeText_escapeHelp, String.ofList_toList]
  have htype : readLines (st.hold b.name { fresh b.name with help := b.help } st.totalSamples st.typedFamilies)
      ((b.token.map b.typeLine).toList.map .ofList) =
      (st.hold b.name b.head st.totalSamples (b.types st.typedFamilies), none) := by
    cases ht : b.token
    case none       => simp [Block.head, Block.types, ht, fresh, readLines]
    case some token =>
      have hl := hf.lines (b.typeLine token) <| by simp [Block.lines, ht]
      have htrim : JsString.trim (.ofList token.toList) = token :=
        (b.typed token ht).trimmed.trans String.ofList_toList
      simp only [Option.map_some, Option.toList_some, List.map_cons, List.map_nil, readLines, readLine_type ht hl]
      rw [declare_hold, htrim]
      simp [Block.head, Block.types, ht, fresh]
  have hrows : readLines (st.hold b.name b.head st.totalSamples (b.types st.typedFamilies))
      (b.rows.map fun row => .ofList row.line) =
      (st.hold b.name (b.rows.foldl pushRow b.head) (st.totalSamples + b.rows.length) (b.types st.typedFamilies), none) := by
    have hl : ∀ row ∈ b.rows, JsString.length (.ofList row.line) ≤ Limits.lineLength := fun row hr =>
      hf.lines row.line <| List.mem_append_right _ <| List.mem_map_of_mem hr
    have hr := @readLines_rows (st.hold b.name b.head st.totalSamples (b.types st.typedFamilies)) b.rows hl hf.count
    have hs : (b.head.seen ++ b.rows.map fun row => identityOf row.read).Nodup := hf.series
    rw [hr, addRows_hold hf.placed hs]
  rw [readLines_begin h hf, Block.lines, List.map_append, List.map_append, List.append_assoc, readLines_append hhelp,
    readLines_append htype, List.map_map]
  exact hrows

end Read

section Whole

variable {blocks before after : List Block} {b : Block} {name token : String}

def Block.apply (st : State) (b : Block) : State :=
  st.hold b.name (b.rows.foldl pushRow b.head) (st.totalSamples + b.rows.length) (b.types st.typedFamilies)

-- The state once all the blocks are read.
def stateOf (blocks : List Block) : State :=
  blocks.foldl Block.apply .init

theorem stateOf_concat : stateOf (blocks ++ [b]) = Block.apply (stateOf blocks) b :=
  List.foldl_concat ..

theorem total_stateOf : (stateOf blocks).totalSamples = (blocks.flatMap Block.rows).length := by
  induction blocks using List.reverseRecOn
  case nil => rfl
  case append_singleton blocks b hi =>
    rw [stateOf_concat, List.flatMap_append, List.length_append, ← hi]
    simp [Block.apply, State.hold]

theorem diagnostics_stateOf : (stateOf blocks).warnings = [] ∧ (stateOf blocks).skippedSamples = 0 := by
  induction blocks using List.reverseRecOn
  case nil => exact ⟨rfl, rfl⟩
  case append_singleton blocks b hi =>
    rw [stateOf_concat]
    exact hi

theorem entries_stateOf (h : (blocks.map Block.name).Nodup) : (stateOf blocks).families.entries =
    blocks.map fun b => (b.name, b.rows.foldl pushRow b.head) := by
  induction blocks using List.reverseRecOn
  case nil => rfl
  case append_singleton blocks b hi =>
    rw [List.map_append, List.nodup_append] at h
    have hb : b.name ∉ (stateOf blocks).families.entries.map Prod.fst := by
      rw [hi h.1, List.map_map]
      exact fun hm => h.2.2 b.name hm b.name (by simp) rfl
    rw [stateOf_concat, List.map_append, ← hi h.1]
    exact Dict.put_of_not_mem hb

-- Each declared type is that of a block.
theorem types_stateOf (h : (stateOf blocks).typedFamilies.get? name = some token) :
    ∃ b ∈ blocks, b.name = name ∧ b.token = some token := by
  induction blocks using List.reverseRecOn
  case nil => cases h
  case append_singleton blocks b hi =>
    rw [stateOf_concat] at h
    have h : (b.types (stateOf blocks).typedFamilies).get? name = some token := h
    rw [Block.types] at h
    cases ht : b.token
    case none =>
      rw [ht] at h
      obtain ⟨b', hb', he⟩ := hi h
      exact ⟨b', List.mem_append_left _ hb', he⟩
    case some t =>
      rw [ht, Option.elim_some, Dict.get?_set] at h
      split at h
      case isTrue hn  => exact ⟨b, by simp, hn.symm, ht.trans h⟩
      case isFalse hn =>
        obtain ⟨b', hb', he⟩ := hi h
        exact ⟨b', List.mem_append_left _ hb', he⟩

theorem parsed_pushRow : (b.rows.foldl pushRow b.head).parsed = b.family := by
  rw [foldl_pushRow]
  rfl

-- A name holds no space, and so the first one ends it.
theorem identityOf_inj {s s' : ParsedSample} (h : s.name.toList ∈ nameRe.lang) (h' : s'.name.toList ∈ nameRe.lang)
    (he : identityOf s = identityOf s') : s.name = s'.name ∧ s.labelKey = s'.labelKey := by
  have he := congrArg (fun t : String => t.toList.reverse) he
  simp only [identityOf, String.toList_append, List.reverse_append, List.append_assoc] at he
  have hs : (" ".toList.reverse : List Char) = [' '] := rfl
  rw [hs, List.singleton_append, List.singleton_append] at he
  obtain ⟨hk, hn⟩ := JsString.append_cons_inj (by simpa using space_not_mem_name h)
    (by simpa using space_not_mem_name h') he
  exact ⟨String.toList_inj.mp <| List.reverse_injective hn, String.toList_inj.mp <| List.reverse_injective hk⟩

theorem series_block (h : b.rows.Pairwise fun r r' =>
    ¬(r.sample.name = r'.sample.name ∧ ∀ k, r.sample.labels.get? k = r'.sample.labels.get? k)) :
    (b.rows.map fun row => identityOf row.read).Nodup := by
  rw [List.Nodup, List.pairwise_map]
  refine h.imp fun {r r'} hne he => hne ?_
  obtain ⟨hn, hk⟩ := @identityOf_inj r.read r'.read r.named r'.named he
  exact ⟨hn, (labelKeyOf_inj_iff r.readable r'.readable).mp hk⟩

theorem types_apply {st : State} (h : b.token = some token) :
    (b.types st.typedFamilies).get? b.name = some token := by
  rw [Block.types, h, Option.elim_some, Dict.get?_set, if_pos rfl]

theorem WellFormed.new (h : WellFormed blocks) (hb : blocks = before ++ b :: after) : New b (stateOf before) := by
  have hn := h.names
  rw [hb, List.map_append, List.map_cons, List.nodup_append] at hn
  have hm : b.name ∉ before.map Block.name := fun hm => hn.2.2 b.name hm b.name (.head _) rfl
  constructor
  case family =>
    refine Dict.lookup_eq_none ?_
    rw [entries_stateOf hn.1, List.map_map]
    exact hm
  case type =>
    cases ht : (stateOf before).typedFamilies.get? b.name
    case none       => rfl
    case some token =>
      obtain ⟨b', hb', he, -⟩ := types_stateOf ht
      exact absurd (List.mem_map.mpr ⟨b', hb', he⟩) hm

theorem WellFormed.fits (h : WellFormed blocks) (hb : blocks = before ++ b :: after) : Fits b (stateOf before) where
  lines  := h.lines b <| by simp [hb]
  count  := by
    have hc := h.count
    rw [hb, List.flatMap_append, List.flatMap_cons, List.length_append, List.length_append] at hc
    rw [total_stateOf]
    omega
  placed := by
    intro row hr
    obtain ⟨suffix, hs, token, ht, hf, he⟩ | ⟨he, hc⟩ := h.placed before b after hb row hr
    · rw [he]
      exact familyNameOf_append hs (types_apply ht) hf
    · refine (familyNameOf_self fun suffix hs base token hbase ht => ?_).trans he
      obtain ⟨b', hb', hn, htoken⟩ := @types_stateOf (before ++ [b]) base token <| by rwa [stateOf_concat]
      cases hf : folds token suffix
      case false => rfl
      case true  => exact absurd ⟨suffix, hs, token, htoken, hf, hn ▸ hbase⟩ <| hc b' hb'
  series := series_block <| h.series b <| by simp [hb]

theorem readLines_blocks (h : WellFormed blocks) (hb : blocks = before ++ after) :
    readLines .init ((before.flatMap Block.lines).map .ofList) = (stateOf before, none) := by
  induction before using List.reverseRecOn generalizing after
  case nil => rfl
  case append_singleton before b hi =>
    rw [List.append_assoc, List.singleton_append] at hb
    rw [List.flatMap_append, List.map_append, readLines_append <| hi hb, List.flatMap_singleton,
      readLines_block (h.new hb) (h.fits hb), stateOf_concat]
    rfl

theorem newline_not_mem_comment {keyword : String} {rest : List Char} (hk : keyword = "HELP" ∨ keyword = "TYPE")
    (hn : name.toList ∈ nameRe.lang) (h : Tail rest) : '\n' ∉ commentLine keyword name rest := by
  have hname : '\n' ∉ name.toList := fun hm => by
    have := isNameChar_of_mem hn hm
    contradiction
  have hrest : '\n' ∉ rest := fun hm => by
    have := h.oneLine _ hm
    contradiction
  have htail : '\n' ∉ tailText rest := by
    rw [tailText]
    split
    · exact List.not_mem_nil
    · simpa using hrest
  obtain rfl | rfl := hk <;> simp [commentLine, hname, htail]

theorem newline_not_mem_lines {l : List Char} (h : l ∈ b.lines) : '\n' ∉ l := by
  simp only [Block.lines, List.mem_append, Option.mem_toList, Option.map_eq_some_iff,
    List.mem_map] at h
  obtain (⟨text, ht, rfl⟩ | ⟨token, ht, rfl⟩) | ⟨row, -, rfl⟩ := h
  · exact newline_not_mem_comment (.inl rfl) b.named <| b.helped text ht
  · exact newline_not_mem_comment (.inr rfl) b.named <| b.typed token ht
  · exact Metrics.newline_not_mem_line

theorem split_write : JsString.split (write blocks) '\n' = (blocks.flatMap Block.lines).map .ofList ∨
    blocks.flatMap Block.lines = [] := by
  by_cases hn : blocks.flatMap Block.lines = []
  · exact .inr hn
  · refine .inl ?_
    rw [JsString.split, write, JsString.splitOn_intercalate rfl (by simpa using hn), List.map_map]
    · simp [Function.comp_def]
    · intro s hs
      obtain ⟨l, hl, rfl⟩ := List.mem_map.mp hs
      obtain ⟨b, -, hl⟩ := List.mem_flatMap.mp hl
      simpa using newline_not_mem_lines hl

theorem parse_write_state (h : WellFormed blocks) : parseExposition (write blocks) = result (stateOf blocks) none := by
  have hr := readLines_blocks h (List.append_nil blocks).symm
  rw [parseExposition, if_neg <| Nat.not_lt_of_le h.body]
  obtain hs | hn := @split_write blocks
  · rw [hs, hr]
  · rw [hn] at hr
    obtain ⟨he, -⟩ := Prod.mk.inj hr
    rw [← he, write, hn]
    rfl

-- What is parsed of a written exposition is what was written.
theorem parse_write (h : WellFormed blocks) :
    (parseExposition (write blocks)).families.entries = blocks.map (fun b => (b.name, b.family)) ∧
      (parseExposition (write blocks)).diagnostics = {
        skippedSamples     := 0
        warnings           := []
        totalSamples       := (blocks.flatMap Block.rows).length
        dependencyFamilies := (blocks.filter (isDependencyFamily ·.name)).length } ∧
      (parseExposition (write blocks)).limitError = none := by
  have he := entries_stateOf h.names
  have hf (b : Block) : (b.rows.foldl pushRow b.head).name = b.name := congrArg ParsedFamily.name parsed_pushRow
  rw [parse_write_state h]
  refine ⟨?_, ?_, rfl⟩
  · have hm : (stateOf blocks).families.entries.map (fun p => (p.2.name, p.2.parsed)) =
        blocks.map fun b => (b.name, b.family) := by
      rw [he, List.map_map]
      exact List.map_congr_left fun b _ => Prod.ext (hf b) parsed_pushRow
    rw [families_result, hm]
    exact Dict.entries_ofList <| by simpa [List.map_map, Function.comp_def] using h.names
  · obtain ⟨hw, hk⟩ := @diagnostics_stateOf blocks
    rw [result, hw, hk, total_stateOf, he, List.filter_map, List.length_map]
    refine congrArg (Diagnostics.mk 0 [] _) <| congrArg List.length <| List.filter_congr fun b _ => ?_
    exact congrArg isDependencyFamily <| hf b

theorem parse_write_served :
    (parseExposition (write served)).families.entries = served.map (fun b => (b.name, b.family)) ∧
      (parseExposition (write served)).diagnostics = {
        skippedSamples     := 0
        warnings           := []
        totalSamples       := 4
        dependencyFamilies := 0 } ∧
      (parseExposition (write served)).limitError = none :=
  parse_write wellFormed_served

end Whole

section Flat

variable {blocks : List Block} {b : Block} {l : List Char} {receivedAtMs : ℚ}

-- The scrape that a result is kept as.
def snapshotOf (receivedAtMs : ℚ) (r : ParseResult) : MetricsSnapshot where
  receivedAtMs := receivedAtMs
  available    := r.diagnostics.totalSamples > 0
  failure      := none
  families     := r.families.map ParsedFamily.plain

theorem comment_of_helpLine {keyword name : String} {rest : List Char} (h : '\n' ∉ commentLine keyword name rest) :
    ∃ line : Metrics.Line, line.text = .ofList (commentLine keyword name rest) ∧ line.sample? = none :=
  ⟨.comment (commentLine keyword name rest).tail fun hm => h <| List.mem_of_mem_tail hm, rfl, rfl⟩

-- The lines of a block as the older reading knows them.
theorem lines_block (b : Block) : ∃ lines : List Metrics.Line, lines.map Metrics.Line.text = b.lines.map .ofList ∧
    lines.filterMap Metrics.Line.sample? = b.rows.map (·.sample) := by
  have hrows : (b.rows.map fun row => Metrics.Line.row row.toRow).map Metrics.Line.text = (b.rows.map (·.line)).map .ofList ∧
      (b.rows.map fun row => Metrics.Line.row row.toRow).filterMap Metrics.Line.sample? = b.rows.map (·.sample) := by
    constructor
    · simp [Metrics.Line.text, Function.comp_def]
    · simp [List.filterMap_map, Metrics.Line.sample?, Function.comp_def]
  have hopt (o : Option String) (f : String → List Char) (h : ∀ t ∈ o, ∃ line : Metrics.Line, line.text = .ofList (f t) ∧
      line.sample? = none) : ∃ lines : List Metrics.Line, lines.map Metrics.Line.text = ((o.map f).toList).map .ofList ∧
      lines.filterMap Metrics.Line.sample? = [] := by
    cases o
    case none   => exact ⟨[], rfl, rfl⟩
    case some t =>
      obtain ⟨line, ht, hs⟩ := h t rfl
      exact ⟨[line], by simp [ht], by simp [hs]⟩
  obtain ⟨help, hh, hh'⟩ := hopt b.help b.helpLine fun t ht =>
    comment_of_helpLine <| newline_not_mem_comment (.inl rfl) b.named <| b.helped t ht
  obtain ⟨type, ht, ht'⟩ := hopt b.token b.typeLine fun t ht =>
    comment_of_helpLine <| newline_not_mem_comment (.inr rfl) b.named <| b.typed t ht
  refine ⟨help ++ type ++ b.rows.map fun row => .row row.toRow, ?_, ?_⟩
  · rw [List.map_append, List.map_append, hh, ht, hrows.1, Block.lines, List.map_append, List.map_append]
  · rw [List.filterMap_append, List.filterMap_append, hh', ht', hrows.2, List.nil_append, List.nil_append]

theorem lines_blocks : ∃ lines : List Metrics.Line,
    lines.map Metrics.Line.text = (blocks.flatMap Block.lines).map .ofList ∧
      lines.filterMap Metrics.Line.sample? = blocks.flatMap fun b => b.rows.map (·.sample) := by
  induction blocks
  case nil => exact ⟨[], rfl, rfl⟩
  case cons b blocks hi =>
    obtain ⟨lines, hl, hs⟩ := hi
    obtain ⟨lines', hl', hs'⟩ := lines_block b
    exact ⟨lines' ++ lines, by simp [hl, hl'], by rw [List.filterMap_append, hs, hs', List.flatMap_cons]⟩

theorem parsePrometheusText_write (hb : ∀ b ∈ blocks, ∀ row ∈ b.rows, Metrics.NoBrace row.sample.labels) :
    Metrics.parsePrometheusText (write blocks) = accumulated (blocks.flatMap fun b => b.rows.map (·.sample)) := by
  obtain ⟨lines, hl, hs⟩ := @lines_blocks blocks
  have hw : write blocks = Metrics.textOf lines := by rw [write, Metrics.textOf, hl]
  rw [hw, Metrics.parsePrometheusText_eq, hs]
  intro s hm
  rw [hs] at hm
  obtain ⟨b, hmb, hr⟩ := List.mem_flatMap.mp hm
  obtain ⟨row, hrow, rfl⟩ := List.mem_map.mp hr
  exact hb b hmb row hrow

-- Both readings of a written exposition give the same sums, unless a label hides its sample from the older one.
theorem parse_write_flat (h : WellFormed blocks)
    (hb : ∀ b ∈ blocks, ∀ row ∈ b.rows, Metrics.NoBrace row.sample.labels) :
    projectFlatSums (snapshotOf receivedAtMs <| parseExposition <| write blocks) = Metrics.parsePrometheusText (write blocks) := by
  have hf : samplesOf (snapshotOf receivedAtMs <| parseExposition <| write blocks) =
      blocks.flatMap fun b => b.rows.map (·.sample) := by
    rw [samplesOf, snapshotOf, Dict.map_entries, (parse_write h).1, List.map_map, List.flatMap_map]
    refine List.flatMap_congr fun b _ => ?_
    simp [ParsedFamily.plain, Block.family, Row.read, Function.comp_def]
  rw [projectFlatSums_eq, hf, parsePrometheusText_write hb]

theorem noBrace_served : ∀ b ∈ served, ∀ row ∈ b.rows, Metrics.NoBrace row.sample.labels := by
  intro b hb row hr
  obtain ⟨name, h, rfl | rfl⟩ := row_served b hb row hr
  · exact Metrics.noBrace_sampleOf <| by decide
  · exact Metrics.noBrace_sampleOf <| by decide

theorem parse_write_flat_served :
    projectFlatSums (snapshotOf 0 <| parseExposition <| write served) = Metrics.parsePrometheusText (write served) ∧
      (Metrics.parsePrometheusText (write served)).get? "latency_bucket" =
        some (.sum <| .finite <| 1351079888211149 / 2 ^ 52) := by
  refine ⟨parse_write_flat wellFormed_served noBrace_served, ?_⟩
  rw [parsePrometheusText_write noBrace_served]
  decide +kernel

end Flat

end Exposition

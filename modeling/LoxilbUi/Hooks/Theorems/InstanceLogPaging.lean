import LoxilbUi.Hooks.InstanceLogPaging
import Mathlib.Algebra.Ring.Nat
import Mathlib.Data.List.Pairwise

-- Which pages the table shows, and where "Load more" goes on.

namespace LogPaging

variable {Log : Type} {s s' s₁ : Paging Log} {chain rs : List (Response Log)} {r last : Response Log}
variable {c : Callback} {stale : Bool} {key : QueryOptions} {page : Page Log} {e : Event Log}

-- What a page belongs to, wherever in the file it is.
def QueryOptions.scope (key : QueryOptions) : QueryOptions :=
  { key with cursor := none, enableAutoRefresh := false }

def QueryOptions.follow (key : QueryOptions) (cursor : Option String) : QueryOptions :=
  { key with cursor, enableAutoRefresh := false }

-- Pages one after the other, each the answer to the cursor of the one before, from a newest page on.
inductive Chain : List (Response Log) → Prop
  | nil    : Chain []
  | newest (r : Response Log) (h : isSet r.key.cursor = false) : Chain [r]
  | next (rs : List (Response Log)) (last r : Response Log) (h : Chain rs) (hl : rs.getLast? = some last)
    (hc : isSet last.page.nextCursor = true) (hr : r.key = last.key.follow last.page.nextCursor) :
    Chain (rs ++ [r])

namespace Chain

theorem scope (h : Chain rs) (hl : rs.getLast? = some last) : ∀ r ∈ rs, r.key.scope = last.key.scope := by
  induction h generalizing last
  case nil => simp at hl
  case newest r _ =>
    cases hl
    simp
  case next rs last' r _ hl' _ hr hi =>
    obtain rfl : r = last := by simpa using hl
    intro x hx
    rw [List.mem_append, List.mem_singleton] at hx
    obtain hx | rfl := hx
    · rw [hi hl' x hx, hr]
      rfl
    · rfl

-- A page that was asked for by a cursor was not asked for by the tail.
theorem not_live (h : Chain rs) (hl : rs.getLast? = some last) (hc : isSet last.key.cursor = true) :
    last.key.enableAutoRefresh = false := by
  cases h
  case nil => simp at hl
  case newest r h =>
    cases hl
    simp [h] at hc
  case next rs last' r h hl' _ hr =>
    obtain rfl : r = last := by simpa using hl
    rw [hr]
    rfl

-- Cursors that each lead further back in the file.
def Descends (offset : String → Nat) (rs : List (Response Log)) : Prop :=
  ∀ r ∈ rs, ∀ c d, r.key.cursor = some c → r.page.nextCursor = some d → offset d < offset c

theorem offset_lt {offset : String → Nat} (h : Chain rs) (hd : Descends offset rs)
    (hl : rs.getLast? = some last) :
    ∀ r ∈ rs, ∀ c d, r.key.cursor = some c → last.page.nextCursor = some d → offset d < offset c := by
  induction h generalizing last
  case nil => simp at hl
  case newest x _ =>
    obtain rfl : x = last := by simpa using hl
    intro y hy
    obtain rfl : y = x := by simpa using hy
    exact hd y hy
  case next rs last' r _ hl' hc hr hi =>
    obtain rfl : r = last := by simpa using hl
    intro x hx c d hxc hd'
    rw [List.mem_append, List.mem_singleton] at hx
    obtain hx | rfl := hx
    · obtain ⟨c', hc'⟩ : ∃ c', r.key.cursor = some c' := by
        rw [hr]
        cases hn : last'.page.nextCursor
        case none   => simp [hn, isSet] at hc
        case some c => exact ⟨c, rfl⟩
      have hlt := hi (fun r hr => hd r (List.mem_append_left _ hr)) hl' x hx c c' hxc
        (by simpa [hr, QueryOptions.follow] using hc')
      exact Nat.lt_trans (hd r (by simp) c' d hc' hd') hlt
    · exact hd x (by simp) c d hxc hd'

-- Then no page stands in the chain twice.
theorem nodup {offset : String → Nat} (h : Chain rs) (hd : Descends offset rs) : rs.Nodup := by
  induction h
  case nil       => exact .nil
  case newest    => simp
  case next rs last r h hl hc hr hi =>
    have hd' : Descends offset rs := fun r hr => hd r (List.mem_append_left _ hr)
    refine List.nodup_append.mpr ⟨hi hd', by simp, fun x hx y hy hxy => ?_⟩
    obtain rfl : y = r := by simpa using hy
    subst hxy
    cases hn : last.page.nextCursor
    case none   => simp [hn, isSet] at hc
    case some d =>
      have hxc : x.key.cursor = some d := by
        rw [hr, hn]
        rfl
      exact absurd (h.offset_lt hd' hl x hx d d hxc hn) (Nat.lt_irrefl _)

end Chain

-- The lines and the scanned bytes are those of a chain of pages that ends with the page applied last.
structure Shows (s : Paging Log) (chain : List (Response Log)) : Prop where
  linked       : Chain chain
  applied      : s.applied = chain.getLast?
  rawLogs      : s.rawLogs = chain.flatMap (·.page.logs)
  scannedBytes : s.scannedBytes = (chain.map fun r => r.page.scannedBytes.getD 0).sum

-- "Load more" goes on from a page, and the query is of its filter and file: of the newest page, of this
-- page, or of the one after it.
structure StandsAt (s : Paging Log) (last : Response Log) : Prop where
  nextCursor : s.nextCursor = last.page.nextCursor
  hasMore    : s.hasMore = last.page.hasMore
  scope      : s.queryOptions.scope = last.key.scope
  cursor     : isSet s.queryOptions.cursor = true → s.queryOptions = last.key ∨
    isSet last.page.nextCursor = true ∧ s.queryOptions = last.key.follow last.page.nextCursor

-- Paging was restarted, and no answer has come since.
structure Restarted (s : Paging Log) : Prop where
  nextCursor : s.nextCursor = none
  hasMore    : s.hasMore = false
  cursor     : isSet s.queryOptions.cursor = false

-- What the query layer holds of a key: an answer of a key that the tail does not follow stays.
structure Kept (s : Paging Log) : Prop where
  fresh   : ∀ key, key.enableAutoRefresh = false → (s.cache key).data.isSome = true →
    (s.cache key).fetching = false
  held    : ∀ r, s.applied = some r → (s.cache r.key).data.isSome = true
  applied : ∀ r, s.applied = some r → r.key.enableAutoRefresh = false →
    (s.cache r.key).data = some (r.stamp, r.page)

def Positioned (s : Paging Log) (chain : List (Response Log)) : Prop :=
  Restarted s ∨ ∃ last, chain.getLast? = some last ∧ StandsAt s last

-- Before the effects of a render run.
structure Ready (s : Paging Log) : Prop where
  shows : ∃ chain, Shows s chain ∧ Positioned s chain
  kept  : Kept s

section Commit

theorem logResponse_key (h : s.logResponse = some r) : r.key = s.queryOptions := by
  simp only [Paging.logResponse, Option.map_eq_some_iff] at h
  obtain ⟨_, _, rfl⟩ := h
  rfl

theorem logResponse_data (h : s.logResponse = some r) :
    (s.cache s.queryOptions).data = some (r.stamp, r.page) := by
  simp only [Paging.logResponse, Option.map_eq_some_iff] at h
  obtain ⟨⟨stamp, page⟩, h, rfl⟩ := h
  exact h

-- An answer of a page further back goes on where the chain ends.
theorem Ready.follows (h : Ready s) (hr : s.logResponse = some r) (hne : s.applied ≠ some r)
    (hs : Shows s chain) (hp : Positioned s chain) (hc : isSet s.queryOptions.cursor = true) :
    ∃ last, chain.getLast? = some last ∧ isSet last.page.nextCursor = true ∧
      r.key = last.key.follow last.page.nextCursor := by
  obtain hp | ⟨last, hl, hp⟩ := hp
  · simp [hp.cursor] at hc
  · obtain hk | ⟨hn, hk⟩ := hp.cursor hc
    · have hlive := hs.linked.not_live hl (hk ▸ hc)
      have ha := hs.applied.trans hl
      have hd := logResponse_data hr
      rw [hk, h.kept.applied last ha hlive] at hd
      have hkey := (logResponse_key hr).trans hk
      obtain ⟨_, _, _⟩ := last
      obtain ⟨_, _, _⟩ := r
      simp_all
    · exact ⟨last, hl, hn, (logResponse_key hr).trans hk⟩

theorem Ready.apply (h : Ready s) (hr : s.logResponse = some r) (hne : s.applied ≠ some r) :
    ∃ chain, Shows (s.apply r) chain ∧ chain.getLast? = some r := by
  obtain ⟨chain, hs, hp⟩ := h.shows
  cases hc : isSet s.queryOptions.cursor
  case false =>
    refine ⟨[r], ⟨.newest r ?_, rfl, ?_, ?_⟩, rfl⟩
    · rw [logResponse_key hr, hc]
    · simp [Paging.apply, hc]
    · simp [Paging.apply, hc]
  case true =>
    obtain ⟨last, hl, hn, hk⟩ := h.follows hr hne hs hp hc
    refine ⟨chain ++ [r], ⟨.next chain last r hs.linked hl hn hk, ?_, ?_, ?_⟩, by simp⟩
    · simp [Paging.apply]
    · simp [Paging.apply, hc, hs.rawLogs]
    · simp [Paging.apply, hc, hs.scannedBytes]

theorem standsAt_apply (hr : s.logResponse = some r) : StandsAt (s.apply r) r where
  nextCursor := rfl
  hasMore    := rfl
  scope      := by rw [logResponse_key hr]; rfl
  cursor     := fun _ => .inl (logResponse_key hr).symm

end Commit

section Kept

theorem Kept.setQuery {query : Query Log} (h : Kept s)
    (hf : key.enableAutoRefresh = false → query.data.isSome = true → query.fetching = false)
    (hd : (s.cache key).data.isSome = true → query.data.isSome = true)
    (ha : key.enableAutoRefresh = false → (s.cache key).data.isSome = true →
      query.data = (s.cache key).data) : Kept (s.setQuery key query) := by
  constructor
  case fresh =>
    intro k
    by_cases hk : k = key
    · subst hk
      simpa [Paging.setQuery] using hf
    · simpa [Paging.setQuery, hk] using h.fresh k
  case held =>
    intro r hr
    have hh := h.held r hr
    by_cases hk : r.key = key
    · rw [hk] at hh
      simpa [Paging.setQuery, hk] using hd hh
    · simpa [Paging.setQuery, hk] using hh
  case applied =>
    intro r hr hl
    have hh := h.held r hr
    by_cases hk : r.key = key
    · rw [hk] at hl hh
      have hsame := ha hl hh
      simp only [Paging.setQuery, hk, Function.update_self, hsame]
      rw [← hk]
      exact h.applied r hr (hk ▸ hl)
    · simpa [Paging.setQuery, hk] using h.applied r hr hl

theorem Kept.fetch (h : Kept s)
    (hq : s.logResponse = none ∨ s.queryOptions.enableAutoRefresh = true) : Kept s.fetch := by
  refine h.setQuery (fun hl hd => ?_) id fun _ _ => rfl
  obtain hn | ht := hq
  · simp only [Paging.logResponse, Option.map_eq_none_iff] at hn
    simp [hn] at hd
  · simp [ht] at hl

theorem Kept.apply (h : Kept s) (hr : s.logResponse = some r) : Kept (s.apply r) where
  fresh   := h.fresh
  held    := by
    rintro _ ⟨⟩
    change (s.cache r.key).data.isSome = true
    rw [logResponse_key hr, logResponse_data hr]
    rfl
  applied := by
    rintro _ ⟨⟩ _
    change (s.cache r.key).data = _
    rw [logResponse_key hr, logResponse_data hr]

end Kept

-- What the steps before a commit leave alone.
structure Frame (s s₁ : Paging Log) : Prop where
  applied      : s₁.applied = s.applied
  rawLogs      : s₁.rawLogs = s.rawLogs
  scannedBytes : s₁.scannedBytes = s.scannedBytes
  wasFetching  : s₁.wasFetching = s.wasFetching

theorem Shows.frame (h : Shows s chain) (f : Frame s s₁) : Shows s₁ chain where
  linked       := h.linked
  applied      := f.applied.trans h.applied
  rawLogs      := f.rawLogs.trans h.rawLogs
  scannedBytes := f.scannedBytes.trans h.scannedBytes

section Act

theorem act_frame : Frame s (s.act c) := by
  cases c
  case handleLoadMore =>
    simp only [Paging.act, Paging.handleLoadMore]
    split <;> exact ⟨rfl, rfl, rfl, rfl⟩
  all_goals exact ⟨rfl, rfl, rfl, rfl⟩

theorem act_cache : (s.act c).cache = s.cache := by
  cases c
  case handleLoadMore =>
    simp only [Paging.act, Paging.handleLoadMore]
    split <;> rfl
  all_goals rfl

theorem handleLoadMore_noop (h : s.canLoadMore = false) : s.handleLoadMore = s := by
  simp [Paging.handleLoadMore, h]

theorem handleLoadMore_positioned (h : Positioned s chain) : Positioned s.handleLoadMore chain := by
  cases hc : s.canLoadMore
  case false => rwa [handleLoadMore_noop hc]
  case true  =>
    have hn : isSet s.nextCursor = true := by
      simp only [Paging.canLoadMore, Bool.and_eq_true] at hc
      exact hc.left
    obtain h | ⟨last, hl, h⟩ := h
    · simp [h.nextCursor, isSet] at hn
    · refine .inr ⟨last, hl, ?_⟩
      rw [h.nextCursor] at hn
      have hq : s.handleLoadMore.queryOptions = last.key.follow last.page.nextCursor := by
        have hs := h.scope
        simp only [QueryOptions.scope, QueryOptions.mk.injEq] at hs
        simp [Paging.handleLoadMore, hc, QueryOptions.follow, h.nextCursor, hs]
      constructor
      case nextCursor => simpa [Paging.handleLoadMore, hc] using h.nextCursor
      case hasMore    => simpa [Paging.handleLoadMore, hc] using h.hasMore
      case scope      => rw [hq]; rfl
      case cursor     => exact fun _ => .inr ⟨hn, hq⟩

theorem toggleLiveTail_positioned (h : Positioned s chain) : Positioned s.toggleLiveTail chain := by
  cases hl : s.liveTail
  case false => exact .inl ⟨by simp [Paging.toggleLiveTail, hl], by simp [Paging.toggleLiveTail, hl], rfl⟩
  case true  =>
    obtain h | ⟨last, hlast, h⟩ := h
    · refine .inl ⟨?_, ?_, rfl⟩
      · simpa [Paging.toggleLiveTail, hl] using h.nextCursor
      · simpa [Paging.toggleLiveTail, hl] using h.hasMore
    · refine .inr ⟨last, hlast, ?_, ?_, h.scope, nofun⟩
      · simpa [Paging.toggleLiveTail, hl] using h.nextCursor
      · simpa [Paging.toggleLiveTail, hl] using h.hasMore

theorem act_positioned (h : Positioned s chain) : Positioned (s.act c) chain := by
  cases c
  case handleLoadMore => exact handleLoadMore_positioned h
  case toggleLiveTail => exact toggleLiveTail_positioned h
  all_goals exact .inl ⟨rfl, rfl, rfl⟩

theorem Kept.act (h : Kept s) : Kept (s.act c) where
  fresh   := by
    rw [act_cache]
    exact h.fresh
  held    := by
    rw [act_cache, act_frame.applied]
    exact h.held
  applied := by
    rw [act_cache, act_frame.applied]
    exact h.applied

theorem Ready.act (h : Ready s) : Ready (s.act c) := by
  obtain ⟨chain, hs, hp⟩ := h.shows
  exact ⟨⟨chain, hs.frame act_frame, act_positioned hp⟩, h.kept.act⟩

theorem act_isLoadingMore (h : c ≠ .handleLoadMore) : (s.act c).isLoadingMore = s.isLoadingMore := by
  cases c
  case handleLoadMore => contradiction
  all_goals rfl

end Act

section Render

variable {before : QueryOptions}

theorem render_cases (s : Paging Log) (before : QueryOptions) (stale : Bool) :
    s.render before stale = s ∧ (s.queryOptions = before ∨ s.logResponse ≠ none) ∨
    s.render before stale = s.fetch ∧ s.queryOptions ≠ before ∧
      (s.logResponse = none ∨ s.queryOptions.enableAutoRefresh = true) := by
  simp only [Paging.render]
  split
  case isTrue hk  => exact .inl ⟨rfl, .inl hk⟩
  case isFalse hk =>
    split
    case isTrue h =>
      refine .inr ⟨rfl, hk, ?_⟩
      simp only [Bool.or_eq_true, Option.isNone_iff_eq_none, Bool.and_eq_true] at h
      exact h.imp_right And.right
    case isFalse h =>
      refine .inl ⟨rfl, .inr fun hn => ?_⟩
      simp [hn] at h

theorem Positioned.setQuery {query : Query Log} (h : Positioned s chain) :
    Positioned (s.setQuery key query) chain := by
  obtain h | ⟨last, hl, h⟩ := h
  · exact .inl ⟨h.nextCursor, h.hasMore, h.cursor⟩
  · exact .inr ⟨last, hl, h.nextCursor, h.hasMore, h.scope, h.cursor⟩

theorem fetch_frame : Frame s s.fetch :=
  ⟨rfl, rfl, rfl, rfl⟩

@[simp]
theorem fetch_isFetching : s.fetch.isFetching = true := by
  simp [Paging.fetch, Paging.isFetching, Paging.setQuery]

@[simp]
theorem fetch_logResponse : s.fetch.logResponse = s.logResponse := by
  simp [Paging.fetch, Paging.logResponse, Paging.setQuery]

theorem Ready.fetch (h : Ready s)
    (hq : s.logResponse = none ∨ s.queryOptions.enableAutoRefresh = true) : Ready s.fetch := by
  obtain ⟨chain, hs, hp⟩ := h.shows
  exact ⟨⟨chain, hs.frame fetch_frame, hp.setQuery⟩, h.kept.fetch hq⟩

theorem Ready.failure (h : Ready s) :
    Ready (s.setQuery key { s.cache key with fetching := false }) := by
  obtain ⟨chain, hs, hp⟩ := h.shows
  refine ⟨⟨chain, hs.frame ⟨rfl, rfl, rfl, rfl⟩, hp.setQuery⟩, ?_⟩
  exact h.kept.setQuery (fun _ _ => rfl) id fun _ _ => rfl

theorem Ready.render (h : Ready s) : Ready (s.render before stale) := by
  obtain ⟨hr, _⟩ | ⟨hr, _, hq⟩ := render_cases s before stale
  · rwa [hr]
  · rw [hr]
    exact h.fetch hq

theorem render_logResponse :
    (s.render before stale).logResponse = s.logResponse := by
  obtain ⟨hr, _⟩ | ⟨hr, _⟩ := render_cases s before stale
  · rw [hr]
  · rw [hr, fetch_logResponse]

theorem render_frame : Frame s (s.render before stale) := by
  obtain ⟨hr, _⟩ | ⟨hr, _⟩ := render_cases s before stale
  · rw [hr]
    exact ⟨rfl, rfl, rfl, rfl⟩
  · rw [hr]
    exact fetch_frame

theorem render_isLoadingMore :
    (s.render before stale).isLoadingMore = s.isLoadingMore := by
  obtain ⟨hr, _⟩ | ⟨hr, _⟩ := render_cases s before stale
  · rw [hr]
  · rw [hr]
    rfl

end Render

section Commit

-- Between two events.
structure Inv (s : Paging Log) : Prop extends Ready s where
  settled : s.logResponse = none ∨ s.logResponse = s.applied
  seen    : s.wasFetching = s.isFetching

theorem fetchingEffect_eq : s.fetchingEffect =
    { s with
      wasFetching   := s.isFetching
      isLoadingMore := s.isLoadingMore && (s.isFetching || !s.wasFetching) } := by
  simp only [Paging.fetchingEffect]
  cases hf : s.isFetching <;> cases hw : s.wasFetching <;> simp
  all_goals
    rw [← hw]

theorem Ready.fetchingEffect (h : Ready s) : Ready s.fetchingEffect := by
  obtain ⟨chain, hs, hp⟩ := h.shows
  rw [fetchingEffect_eq]
  refine ⟨⟨chain, ⟨hs.linked, hs.applied, hs.rawLogs, hs.scannedBytes⟩, ?_⟩, ?_⟩
  · exact hp.imp (fun h => ⟨h.nextCursor, h.hasMore, h.cursor⟩)
      fun ⟨last, hl, h⟩ => ⟨last, hl, h.nextCursor, h.hasMore, h.scope, h.cursor⟩
  · exact ⟨h.kept.fresh, h.kept.held, h.kept.applied⟩

theorem StandsAt.fetchingEffect (h : StandsAt s last) : StandsAt s.fetchingEffect last := by
  rw [fetchingEffect_eq]
  exact ⟨h.nextCursor, h.hasMore, h.scope, h.cursor⟩

theorem Ready.of_apply (h : Ready s) (hr : s.logResponse = some r) (hne : s.applied ≠ some r) :
    Ready (s.apply r) := by
  obtain ⟨chain, hs, hl⟩ := h.apply hr hne
  exact ⟨⟨chain, hs, .inr ⟨r, hl, standsAt_apply hr⟩⟩, h.kept.apply hr⟩

variable [DecidableEq Log]

-- A commit folds in the answer of the query, if it is another one than last time.
theorem commit_cases :
    ((s.logResponse = none ∨ s.logResponse = s.applied) ∧ s.commit = s.fetchingEffect) ∨
      ∃ r, s.logResponse = some r ∧ s.applied ≠ some r ∧ s.commit = (s.apply r).fetchingEffect := by
  simp only [Paging.commit, Paging.responseEffect]
  cases hr : s.logResponse
  case none => exact .inl ⟨.inl rfl, rfl⟩
  case some r =>
    by_cases ha : s.applied = some r
    · exact .inl ⟨.inr ha.symm, by simp only [if_pos ha]⟩
    · exact .inr ⟨r, rfl, ha, by simp only [if_neg ha]⟩

theorem Ready.commit (h : Ready s) : Inv s.commit := by
  obtain ⟨hs, hc⟩ | ⟨r, hr, hne, hc⟩ := commit_cases (s := s)
  · refine ⟨hc ▸ h.fetchingEffect, ?_, ?_⟩
    · rw [hc, fetchingEffect_eq]
      exact hs
    · rw [hc, fetchingEffect_eq]
      rfl
  · refine ⟨hc ▸ (h.of_apply hr hne).fetchingEffect, ?_, ?_⟩
    · rw [hc, fetchingEffect_eq]
      exact .inr hr
    · rw [hc, fetchingEffect_eq]
      rfl

end Commit

section Step

theorem initial_ready (cached : QueryOptions → Option (Page Log)) : Ready (initial cached) := by
  have hn : (initial cached).applied = none := rfl
  refine ⟨⟨[], ⟨.nil, hn, rfl, rfl⟩, .inl ⟨rfl, rfl, rfl⟩⟩, ⟨fun _ _ _ => rfl, ?_, ?_⟩⟩
  · intro r h
    rw [hn] at h
    cases h
  · intro r h
    rw [hn] at h
    cases h

variable [DecidableEq Log]

theorem Ready.response (h : Ready s) (hf : (s.cache key).fetching = true) :
    Ready (s.setQuery key ⟨some <| Paging.renew (s.cache key).data page, false⟩) := by
  obtain ⟨chain, hs, hp⟩ := h.shows
  refine ⟨⟨chain, hs.frame ⟨rfl, rfl, rfl, rfl⟩, hp.setQuery⟩, ?_⟩
  refine h.kept.setQuery (fun _ _ => rfl) (fun _ => rfl) fun hl hd => ?_
  rw [h.kept.fresh key hl hd] at hf
  contradiction

-- What an event does before the render that follows it is committed.
theorem step_ready (h : Ready s) (hs : s.step e = some s') :
    ∃ s₁, Ready s₁ ∧ s₁.applied = s.applied ∧ s' = s₁.commit := by
  cases e
  case callback c stale =>
    cases hs
    exact ⟨_, h.act.render, render_frame.applied.trans act_frame.applied, rfl⟩
  case poll =>
    obtain ⟨hl, hs⟩ := Option.ite_none_right_eq_some.mp hs
    cases hs
    exact ⟨_, h.fetch <| .inr hl, rfl, rfl⟩
  case response key page =>
    obtain ⟨hf, hs⟩ := Option.ite_none_right_eq_some.mp hs
    cases hs
    exact ⟨_, h.response hf, rfl, rfl⟩
  case failure key =>
    obtain ⟨hf, hs⟩ := Option.ite_none_right_eq_some.mp hs
    cases hs
    exact ⟨_, h.failure, rfl, rfl⟩

theorem Inv.step (h : Inv s) (hs : s.step e = some s') : Inv s' := by
  obtain ⟨s₁, hr, _, rfl⟩ := step_ready h.toReady hs
  exact hr.commit

end Step

section Slip

variable [DecidableEq Log]

-- The query has its answer, and the table shows it already.
def Showing (s : Paging Log) : Prop :=
  s.logResponse ≠ none ∧ s.logResponse = s.applied

-- A callback that drops the place in the file and lands on the answer on screen, which is then not
-- folded in again; or a click on "Load more" that asks for the key that is rendered, which is then not
-- asked for again.
def Slip (s : Paging Log) : Event Log → Prop
  | .callback .handleLoadMore _ => s.canLoadMore = true ∧
    (s.handleLoadMore.queryOptions = s.queryOptions ∨ Showing s.handleLoadMore)
  | .callback c _ => Showing (s.act c)
  | _             => False

-- Between two events of a run without a slip.
structure Smooth (s : Paging Log) : Prop extends Inv s where
  standing : s.logResponse ≠ none → ∃ last, s.applied = some last ∧ StandsAt s last
  loading  : s.isLoadingMore = true → s.isFetching = true

-- An answer that is folded in puts everything right.
theorem Ready.smooth_of_apply (h : Ready s) (hr : s.logResponse = some r)
    (hc : s.commit = (s.apply r).fetchingEffect) : Smooth s.commit := by
  refine ⟨h.commit, fun _ => ?_, fun hl => ?_⟩
  · rw [hc]
    refine ⟨r, ?_, (standsAt_apply hr).fetchingEffect⟩
    rw [fetchingEffect_eq]
    rfl
  · rw [hc, fetchingEffect_eq] at hl
    simp [Paging.apply] at hl

theorem Ready.smooth (h : Ready s)
    (hp : Showing s → ∃ last, s.applied = some last ∧ StandsAt s last)
    (hl : s.isLoadingMore = true → s.wasFetching = true ∨ s.isFetching = true ∨
      s.logResponse ≠ none ∧ s.logResponse ≠ s.applied) : Smooth s.commit := by
  obtain ⟨hs, hc⟩ | ⟨r, hr, _, hc⟩ := commit_cases (s := s)
  case inr => exact h.smooth_of_apply hr hc
  refine ⟨h.commit, fun hn => ?_, fun hload => ?_⟩
  · rw [hc, fetchingEffect_eq] at hn
    obtain ⟨last, ha, hst⟩ := hp ⟨hn, hs.resolve_left hn⟩
    refine ⟨last, ?_, hc ▸ hst.fetchingEffect⟩
    rw [hc, fetchingEffect_eq]
    exact ha
  · rw [hc, fetchingEffect_eq] at hload ⊢
    simp only [Bool.and_eq_true, Bool.or_eq_true, Bool.not_eq_true'] at hload
    change s.isFetching = true
    obtain hw | hf | ⟨hn, hne⟩ := hl hload.left
    · exact hload.right.resolve_right (by simp [hw])
    · exact hf
    · exact absurd (hs.resolve_left hn) hne

theorem mount_smooth (cached : QueryOptions → Option (Page Log)) : Smooth (mount cached) := by
  have hs := initial_ready cached
  rw [mount]
  split
  case isTrue hn =>
    have hn : (initial cached).logResponse = none := by simpa using hn
    exact (hs.fetch <| .inl hn).smooth (fun h => absurd (fetch_logResponse.trans hn) h.left) nofun
  case isFalse hn =>
    refine hs.smooth (fun h => absurd ?_ h.left) nofun
    exact h.right

-- A click on "Load more" that does nothing renders nothing new.
theorem Smooth.noop (h : Smooth s) : Smooth (s.render s.queryOptions stale).commit := by
  have hr : s.render s.queryOptions stale = s := by simp [Paging.render]
  rw [hr]
  exact h.toReady.smooth (fun hs => h.standing hs.left) fun hl => .inr <| .inl <| h.loading hl

theorem Smooth.loadMore (h : Smooth s) (hq : s.handleLoadMore.queryOptions ≠ s.queryOptions)
    (hs : ¬Showing s.handleLoadMore) : Smooth (s.handleLoadMore.render s.queryOptions stale).commit := by
  refine (h.toReady.act (c := .handleLoadMore)).render.smooth (fun hw => ?_) fun _ => ?_
  · refine absurd ⟨?_, ?_⟩ hs
    · exact render_logResponse ▸ hw.left
    · exact render_logResponse.symm.trans <| hw.right.trans render_frame.applied
  · rw [Paging.act]
    obtain ⟨hr, hk⟩ | ⟨hr, _⟩ :=
      render_cases s.handleLoadMore s.queryOptions stale
    · have hn := hk.resolve_left hq
      rw [hr]
      exact .inr <| .inr ⟨hn, fun he => hs ⟨hn, he⟩⟩
    · rw [hr]
      exact .inr <| .inl fetch_isFetching

theorem Smooth.callback (h : Smooth s) (hs : ¬Slip s (.callback c stale)) :
    Smooth ((s.act c).render s.queryOptions stale).commit := by
  by_cases hl : c = .handleLoadMore
  · subst hl
    cases hc : s.canLoadMore
    case false =>
      rw [Paging.act, handleLoadMore_noop hc]
      exact h.noop
    case true =>
      simp only [Slip, hc, true_and, not_or] at hs
      exact h.loadMore hs.left hs.right
  · have hs : ¬Showing (s.act c) := by
      cases c
      case handleLoadMore => contradiction
      all_goals exact hs
    refine h.toReady.act.render.smooth (fun hw => ?_) fun hload => ?_
    · refine absurd ⟨?_, ?_⟩ hs
      · exact render_logResponse ▸ hw.left
      · exact render_logResponse.symm.trans <| hw.right.trans render_frame.applied
    · rw [render_isLoadingMore, act_isLoadingMore hl] at hload
      rw [render_frame.wasFetching, act_frame.wasFetching, h.seen]
      exact .inl <| h.loading hload

-- What the query layer does of itself.
theorem Smooth.setQuery {query : Query Log} (h : Smooth s) (hr : Ready (s.setQuery key query)) :
    Smooth (s.setQuery key query).commit := by
  refine hr.smooth (fun hw => ?_) fun hl => .inl ?_
  · obtain ⟨r, hr'⟩ := Option.ne_none_iff_exists'.mp hw.left
    have ha : s.applied = some r := hw.right.symm.trans hr'
    have hk : r.key = s.queryOptions := @logResponse_key _ (s.setQuery key query) _ hr'
    have hd := h.kept.held r ha
    rw [hk] at hd
    have hn : s.logResponse ≠ none := by
      intro hn
      simp only [Paging.logResponse, Option.map_eq_none_iff] at hn
      simp [hn] at hd
    obtain ⟨last, hl, hst⟩ := h.standing hn
    exact ⟨last, hl, hst.nextCursor, hst.hasMore, hst.scope, hst.cursor⟩
  · exact h.seen.trans <| h.loading hl

theorem Smooth.step (h : Smooth s) (hs : ¬Slip s e) (he : s.step e = some s') : Smooth s' := by
  cases e
  case callback c stale =>
    cases he
    exact h.callback hs
  case poll =>
    obtain ⟨hl, he⟩ := Option.ite_none_right_eq_some.mp he
    cases he
    exact h.setQuery <| h.toReady.fetch <| .inr hl
  case response key page =>
    obtain ⟨hf, he⟩ := Option.ite_none_right_eq_some.mp he
    cases he
    exact h.setQuery <| h.toReady.response hf
  case failure key =>
    obtain ⟨hf, he⟩ := Option.ite_none_right_eq_some.mp he
    cases he
    exact h.setQuery h.toReady.failure

-- A state in which an answer has just been folded in, or the first one.
inductive Renewed (cached : QueryOptions → Option (Page Log)) : Paging Log → Prop
  | mounted : Renewed cached (mount cached)
  | applied (es : List (Event Log)) (s : Paging Log) (e : Event Log) (s' : Paging Log)
    (r : Run Paging.step (mount cached) es s) (he : s.step e = some s') (ha : s'.applied ≠ s.applied) :
    Renewed cached s'

theorem Renewed.smooth {cached : QueryOptions → Option (Page Log)} (h : Renewed cached s) : Smooth s := by
  cases h
  case mounted => exact mount_smooth cached
  case applied es s₀ e r he ha =>
    have hi : Inv s₀ := r.invariant (mount_smooth cached).toInv fun _ _ _ h => h.step
    obtain ⟨s₁, hr, ha₁, rfl⟩ := step_ready hi.toReady he
    obtain ⟨_, hc⟩ | ⟨r, hr₁, _, hc⟩ := commit_cases (s := s₁)
    · rw [hc, fetchingEffect_eq, ← ha₁] at ha
      contradiction
    · exact hr.smooth_of_apply hr₁ hc

end Slip

section Runs

-- What a run on an empty query layer leads to.
def after (es : List (Event Nat)) : Option (Paging Nat) :=
  Run.exec Paging.step (mount fun _ => none) es

end Runs

end LogPaging

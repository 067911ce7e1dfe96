import LoxilbUi.Library.Run
import Mathlib.Logic.Function.Basic

-- hooks/useInstanceLogPaging.ts over useInstanceLogs (hooks/query/instanceHook.ts), on one instance. The
-- query layer keeps an answer per key; a key is asked for when it is switched to and has no answer, and
-- while the tail is followed. What is computed of the lines for the table is left out.

namespace LogPaging

-- What a query is keyed by, compared by structure.
structure QueryOptions where
  level             : Option String
  keyword           : Option String
  cursor            : Option String
  file              : Option String
  reloadToken       : Nat
  enableAutoRefresh : Bool
  deriving DecidableEq

-- An answer of `query_get_inst_logs`.
structure Page (Log : Type) where
  logs         : List Log
  nextCursor   : Option String
  hasMore      : Bool
  totalSize    : Option Nat
  scannedBytes : Option Nat
  deriving DecidableEq

-- An answer as the object it is: the key that it was fetched under, and its number there.
structure Response (Log : Type) where
  key   : QueryOptions
  stamp : Nat
  page  : Page Log
  deriving DecidableEq

-- An entry of the query layer.
structure Query (Log : Type) where
  data     : Option (Nat × Page Log)
  fetching : Bool

-- `!!text`
def isSet (text : Option String) : Bool :=
  text.any (· ≠ "")

-- `text || undefined`
def orUndefined (text : String) : Option String :=
  if text = "" then none else some text

structure Paging (Log : Type) where
  selectedLevel : String
  keyword       : String
  preset        : String
  customRange   : String × String
  liveTail      : Bool
  rawLogs       : List Log
  nextCursor    : Option String
  hasMore       : Bool
  isLoadingMore : Bool
  totalSize     : Nat
  scannedBytes  : Nat
  queryOptions  : QueryOptions
  applied       : Option (Response Log)
  -- The query layer, and what `isFetching` was when its effect last ran.
  cache         : QueryOptions → Query Log
  wasFetching   : Bool

inductive Callback
  | applyKeyword (keyword : String)
  | handleLoadMore
  | handleRefresh
  | toggleLiveTail
  | selectFile (file : String)
  | resetFilters

-- An answer of a followed key is stale after two seconds: `stale` tells whether that of the key that a
-- callback switches to is.
inductive Event (Log : Type)
  | callback (c : Callback) (stale : Bool)
  | poll
  | response (key : QueryOptions) (page : Page Log)
  | failure (key : QueryOptions)

namespace Paging

variable {Log : Type}

section Hook

variable (s : Paging Log)

def applyKeyword (keyword : String) : Paging Log :=
  { s with
    queryOptions :=
      { s.queryOptions with level := none, keyword := orUndefined keyword, cursor := none }
    keyword
    nextCursor := none
    hasMore    := false }

-- Whether "Load more" does anything.
def canLoadMore : Bool :=
  isSet s.nextCursor && !s.isLoadingMore

def handleLoadMore : Paging Log :=
  if !s.canLoadMore then s
  else { s with
    liveTail      := false
    isLoadingMore := true
    queryOptions  :=
      { s.queryOptions with cursor := s.nextCursor, enableAutoRefresh := false } }

def handleRefresh : Paging Log :=
  { s with
    nextCursor   := none
    hasMore      := false
    queryOptions :=
      { s.queryOptions with cursor := none, reloadToken := s.queryOptions.reloadToken + 1 } }

def toggleLiveTail : Paging Log :=
  let next := !s.liveTail
  { s with
    liveTail     := next
    nextCursor   := if next then none else s.nextCursor
    hasMore      := if next then false else s.hasMore
    queryOptions := { s.queryOptions with cursor := none, enableAutoRefresh := next } }

def selectFile (file : String) : Paging Log :=
  { s with
    liveTail     := false
    nextCursor   := none
    hasMore      := false
    queryOptions :=
      { s.queryOptions with
        file              := orUndefined file
        cursor            := none
        enableAutoRefresh := false
        reloadToken       := s.queryOptions.reloadToken + 1 } }

def resetFilters : Paging Log :=
  { s with selectedLevel := "", preset := "all", customRange := ("", "") }.applyKeyword ""

def act : Callback → Paging Log
  | .applyKeyword keyword => s.applyKeyword keyword
  | .handleLoadMore       => s.handleLoadMore
  | .handleRefresh        => s.handleRefresh
  | .toggleLiveTail       => s.toggleLiveTail
  | .selectFile file      => s.selectFile file
  | .resetFilters         => s.resetFilters

-- `data` and `isFetching` of the query that is rendered.
def logResponse : Option (Response Log) :=
  (s.cache s.queryOptions).data.map fun (stamp, page) => ⟨s.queryOptions, stamp, page⟩

def isFetching : Bool :=
  (s.cache s.queryOptions).fetching

def setQuery (key : QueryOptions) (query : Query Log) : Paging Log :=
  { s with cache := Function.update s.cache key query }

def fetch : Paging Log :=
  s.setQuery s.queryOptions { s.cache s.queryOptions with fetching := true }

-- The render after a callback: a key that was switched to is asked for if it has no answer, or a stale
-- one. The same key is not asked for again.
def render (before : QueryOptions) (stale : Bool) : Paging Log :=
  if s.queryOptions = before then s
  else if s.logResponse.isNone || (stale && s.queryOptions.enableAutoRefresh) then s.fetch
  else s

-- An answer that equals the one held is kept as the same object.
def renew [DecidableEq Log] (data : Option (Nat × Page Log)) (page : Page Log) : Nat × Page Log :=
  match data with
  | none               => (0, page)
  | some (stamp, held) => if held = page then (stamp, held) else (stamp + 1, page)

def apply (r : Response Log) : Paging Log :=
  let following := isSet s.queryOptions.cursor
  { s with
    applied       := some r
    rawLogs       := if following then s.rawLogs ++ r.page.logs else r.page.logs
    nextCursor    := r.page.nextCursor
    hasMore       := r.page.hasMore
    isLoadingMore := false
    totalSize     := r.page.totalSize.getD s.totalSize
    scannedBytes  :=
      if following then s.scannedBytes + r.page.scannedBytes.getD 0 else r.page.scannedBytes.getD 0 }

-- The effect on [log_response, queryOptions.cursor]: an answer is folded in once.
def responseEffect [DecidableEq Log] : Paging Log :=
  match s.logResponse with
  | none   => s
  | some r => if s.applied = some r then s else s.apply r

-- The effect on [isFetching].
def fetchingEffect : Paging Log :=
  if s.isFetching = s.wasFetching then s
  else { s with wasFetching := s.isFetching, isLoadingMore := s.isFetching && s.isLoadingMore }

def commit [DecidableEq Log] : Paging Log :=
  s.responseEffect.fetchingEffect

end Hook

def step [DecidableEq Log] (s : Paging Log) : Event Log → Option (Paging Log)
  | .callback c stale   => some (s.act c |>.render s.queryOptions stale).commit
  | .poll               => if s.queryOptions.enableAutoRefresh then some s.fetch.commit else none
  | .response key page  =>
    if (s.cache key).fetching then
      some (s.setQuery key ⟨some <| renew (s.cache key).data page, false⟩).commit
    else none
  | .failure key        =>
    if (s.cache key).fetching then
      some (s.setQuery key { s.cache key with fetching := false }).commit
    else none

end Paging

-- The state of the first render, on what the query layer holds by then.
def initial {Log : Type} (cached : QueryOptions → Option (Page Log)) : Paging Log where
  selectedLevel := ""
  keyword       := ""
  preset        := "all"
  customRange   := ("", "")
  liveTail      := false
  rawLogs       := []
  nextCursor    := none
  hasMore       := false
  isLoadingMore := false
  totalSize     := 0
  scannedBytes  := 0
  queryOptions  := {
    level             := none
    keyword           := none
    cursor            := none
    file              := none
    reloadToken       := 0
    enableAutoRefresh := false
  }
  applied       := none
  cache         := fun key => ⟨(cached key).map (0, ·), false⟩
  wasFetching   := false

def mount {Log : Type} [DecidableEq Log] (cached : QueryOptions → Option (Page Log)) : Paging Log :=
  (if (initial cached).logResponse.isNone then (initial cached).fetch else initial cached).commit

end LogPaging

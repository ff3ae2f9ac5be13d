/-
  O2Fabric.Cloudflare.BankFunnel

  The bootstrap object's `/funnel` route: reports that arrive together are
  accrued one after another, each from what the one before it left in memory.

  The chain of promises behind `#funnelRestored` is a queue of reports and the
  stage its first link is at.  Reads and puts of the storage are events of
  their own, so anything can happen between them.
-/

import O2Fabric.Cloudflare.FunnelJournal
import O2Fabric.Lib.Steps

namespace O2Fabric.BankFunnel

open FunnelJournal

def MAX_FUNNEL_BODY_BYTES : Nat := 1024

def FUNNEL_POPULATION_PENDING_RULING : FunnelPopulation := .optedInOnly

/-- A report that has been let in, by the order it came in. -/
structure FunnelPost where
  id : Nat
  report : FunnelReport
  dimensions : FunnelDimensions
  deriving DecidableEq

/-- Why a body is no report: 413 and 400. -/
inductive BodyFailure
  | reportTooLarge
  | notAReport
  deriving DecidableEq

inductive Answer
  | banked
  | refused
  deriving DecidableEq

/-- A report that the stored record counts, of this object or of another writer. -/
inductive Accrual
  | own (post : FunnelPost)
  | other (report : FunnelReport) (dimensions : FunnelDimensions)
  deriving DecidableEq

def accrueOne (totals : FunnelTotals) : Accrual → FunnelTotals
  | .own post => accrueFunnelReport totals post.report post.dimensions
  | .other report dimensions => accrueFunnelReport totals report dimensions

/-- The record of a list of reports. -/
def replay (history : List Accrual) : FunnelTotals :=
  history.foldl accrueOne (emptyFunnelJournal FUNNEL_POPULATION_PENDING_RULING)

/-- Where the first link of the chain is. -/
inductive Stage
  /-- `#funnelRestored` is undefined. -/
  | unread
  /-- The first read of the record is under way. -/
  | restoring
  /-- The memo: a record, or a read that failed. -/
  | settled (memo : Option FunnelTotals)
  /-- `writeFunnelJournal` reads what is stored. -/
  | checking (post : FunnelPost) (banked : FunnelTotals)
  | putting (post : FunnelPost) (banked : FunnelTotals) (bytes : Bytes)
  /-- The read after a refusal is under way. -/
  | recovering

structure Funnel where
  stored : Option Bytes
  stage : Stage
  /-- Reports chained behind the first link. -/
  queue : List FunnelPost
  nextId : Nat
  answers : List (FunnelPost × Answer)
  badBodies : List BodyFailure
  /-- What the stored record counts. -/
  history : List Accrual
  /-- Another writer has written since this object last read or wrote. -/
  behind : Bool

def Funnel.init : Funnel := ⟨none, .unread, [], 0, [], [], [], false⟩

inductive Event
  | post (body : JsString) (header platformCountry : Option JsString)
  /-- `GET /funnel`. -/
  | readFunnel
  /-- The next report is taken up. -/
  | begin
  /-- A read completes, or throws. -/
  | read (ok : Bool)
  /-- A put completes, or fails without effect. -/
  | put (ok : Bool)
  /-- The object is evicted; a put that is under way may have taken effect. -/
  | evict (landed : Bool)
  | secondWriter (report : FunnelReport) (dimensions : FunnelDimensions)

def Event.isSecondWriter : Event → Bool
  | .secondWriter _ _ => true
  | _ => false

/-- What lies outside this object. -/
structure Env where
  toUpperCase : JsString → JsString
  fraction : ℚ → JsString

namespace Funnel

/-- `#funnelOnce`. -/
def asked (s : Funnel) : Funnel :=
  match s.stage with
  | .unread => { s with stage := .restoring }
  | _ => s

/-- The attempt rejects: its report is dropped, and the memo becomes a fresh read. -/
def refuse (s : Funnel) (post : FunnelPost) : Funnel :=
  { s with answers := s.answers ++ [(post, .refused)], stage := .recovering }

/-- A read of the record for the memo. -/
def reread (s : Funnel) (ok : Bool) : Funnel :=
  if ok then
    { s with
      stage := .settled (readFunnelJournal s.stored FUNNEL_POPULATION_PENDING_RULING).toOption
      behind := false }
  else { s with stage := .settled none }

/-- The put takes effect. -/
def land (s : Funnel) (post : FunnelPost) (bytes : Bytes) : Funnel :=
  { s with stored := some bytes, history := s.history ++ [.own post] }

variable (env : Env)

/-- `#bankFunnel`, as far as it runs before it waits. -/
def bankFunnel (s : Funnel) (body : JsString) (header platformCountry : Option JsString) :
    Funnel :=
  if MAX_FUNNEL_BODY_BYTES < body.length then
    { s with badBodies := s.badBodies ++ [.reportTooLarge] }
  else match (Json.parse body).bind parseFunnelReport with
    | none => { s with badBodies := s.badBodies ++ [.notAReport] }
    | some report =>
      { s.asked with
        queue := s.queue ++
          [⟨s.nextId, report, funnelDimensionsFrom env.toUpperCase header platformCountry⟩]
        nextId := s.nextId + 1 }

/-- The storage's answer to the read that is under way. -/
def readDone (s : Funnel) (ok : Bool) : Option Funnel :=
  match s.stage with
  | .restoring => some (s.reread ok)
  | .recovering => some (s.reread ok)
  | .checking post banked =>
    if ok then
      match writeFunnelJournal env.fraction s.stored banked FUNNEL_POPULATION_PENDING_RULING with
      | .ok bytes => some { s with stage := .putting post banked bytes }
      | .error _ => some (s.refuse post)
    else some (s.refuse post)
  | _ => none

def putDone (s : Funnel) (ok : Bool) : Option Funnel :=
  match s.stage with
  | .putting post banked bytes =>
    if ok then
      some { s.land post bytes with
        stage := .settled (some banked)
        answers := s.answers ++ [(post, .banked)] }
    else some (s.refuse post)
  | _ => none

/-- The next report, from what the one before it left. -/
def begin (s : Funnel) : Option Funnel :=
  match s.stage, s.queue with
  | .settled (some totals), post :: queue =>
    some { s with
      queue := queue
      stage := .checking post (accrueFunnelReport totals post.report post.dimensions) }
  | .settled none, post :: queue => some { s.refuse post with queue := queue }
  | _, _ => none

def evict (s : Funnel) (landed : Bool) : Funnel :=
  match s.stage, landed with
  | .putting post _ bytes, true => { s.land post bytes with stage := .unread, queue := [] }
  | _, _ => { s with stage := .unread, queue := [], behind := false }

/-- Another writer reads the record, accrues one report and writes it. -/
def secondWriter (s : Funnel) (report : FunnelReport) (dimensions : FunnelDimensions) :
    Option Funnel :=
  match readFunnelJournal s.stored FUNNEL_POPULATION_PENDING_RULING with
  | .error _ => none
  | .ok totals =>
    match writeFunnelJournal env.fraction s.stored
        (accrueFunnelReport totals report dimensions) FUNNEL_POPULATION_PENDING_RULING with
    | .error _ => none
    | .ok bytes =>
      some { s with
        stored := some bytes
        history := s.history ++ [.other report dimensions]
        behind := true }

def step (s : Funnel) : Event → Option Funnel
  | .post body header platformCountry => some (s.bankFunnel env body header platformCountry)
  | .readFunnel => some s.asked
  | .begin => s.begin
  | .read ok => s.readDone env ok
  | .put ok => s.putDone ok
  | .evict landed => some (s.evict landed)
  | .secondWriter report dimensions => s.secondWriter env report dimensions

end Funnel

/-- A second writer is detected: it does not write between a check and its put, and a record that
    does not follow what it wrote is refused. -/
def Detected (env : Env) (s : Funnel) : Event → Prop
  | .secondWriter _ _ =>
    match s.stage with
    | .putting _ _ _ => False
    | _ => True
  | .read true =>
    match s.stage with
    | .checking _ banked =>
      s.behind = true →
        (writeFunnelJournal env.fraction s.stored banked
          FUNNEL_POPULATION_PENDING_RULING).toBool = false
    | _ => True
  | _ => True

/-- The storage works, the record is under its ceiling, and nobody else writes. -/
def Steady (env : Env) (s : Funnel) : Event → Prop
  | .read ok =>
    ok = true ∧
      match s.stage with
      | .checking _ banked =>
        (encodeTotals env.fraction banked).length ≤ FUNNEL_RECORD_CEILING_BYTES
      | _ => True
  | .put ok => ok = true
  | .secondWriter _ _ => False
  | _ => True

end O2Fabric.BankFunnel

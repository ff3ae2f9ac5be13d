/-
  O2Fabric.Core.Quorum

  Composing a quorum of separate operators, and what an agreement among
  certified replicas is worth.
-/

import O2Fabric.Core.Platform
import O2Fabric.Lib.Grouping
import Mathlib.Data.List.Sort

namespace O2Fabric

open Grouping

/-- How far an agreement reaches, weakest first. -/
inductive AttestationStrength
  | ownerAttested
  | ownerDomain
  | singleIssuer
  | independent
  deriving DecidableEq

def attestationRank : AttestationStrength → Nat
  | .ownerAttested => 0
  | .ownerDomain => 1
  | .singleIssuer => 2
  | .independent => 3

def describeAttestation : AttestationStrength → JsString
  | .ownerAttested =>
    js "owner-attested — computed once by the data owner and not independently verified"
  | .ownerDomain =>
    js "owner-domain agreement — replicated across the owner’s own nodes, not across operators"
  | .singleIssuer =>
    js "single-issuer agreement — replicas from separate operators agreed, but one certificate provider vouched for all of them"
  | .independent => js "independently verified — replicas from separate operators agreed"

/-- What a quorum has to satisfy.  A requirement that is not mentioned holds. -/
structure QuorumRules where
  size : Nat
  requireIndependentPaths : Option Bool
  requireDistinctIssuers : Option Bool
  /-- The peer a certificate's node is known as; without it, none is. -/
  peerIdOf : Option (NodeCertificate → Option JsString)

/-- Why no quorum was composed. -/
inductive QuorumRefusal
  | insufficientOperators (wanted distinctOperators : Nat)
  | sharedRelayDependency (relayId : JsString)
  | singleIssuerQuorum (issuer : JsString)
  | noCandidates
  deriving DecidableEq

inductive QuorumResult
  | composed (members : List NodeCertificate) (operators : List JsString)
      (strength : AttestationStrength)
  | refused (refusal : QuorumRefusal) (reason : JsString)
  deriving DecidableEq

def classifyAttestation (agreeing : List NodeCertificate) : AttestationStrength :=
  if agreeing.length ≤ 1 then .ownerAttested
  else
    let operators := distinct (agreeing.map NodeCertificate.operatorId)
    let issuers := distinct (agreeing.map NodeCertificate.issuer)
    if 2 ≤ operators.length ∧ 2 ≤ issuers.length then .independent
    else if 2 ≤ operators.length then .singleIssuer
    else .ownerDomain

/-- `[...set].sort()`. -/
def sortedDistinct (texts : List JsString) : List JsString :=
  (distinct texts).insertionSort (· ≤ ·)

/-- A relay without which no member could be reached: for every member, its
    only way in or the member itself. -/
def sharedRelay (members : List NodeCertificate)
    (peerIdOf : NodeCertificate → Option JsString) : Option JsString :=
  let viaRelay := members.filter fun member => decide (member.discoverability ≠ .seed)
  let named := distinct (viaRelay.flatMap NodeCertificate.relayIds)
  let lostWith := fun (member : NodeCertificate) (relayId : JsString) =>
    decide (member.discoverability ≠ .seed ∧ relayId ∈ member.relayIds)
      || decide (peerIdOf member = some relayId)
  let fatal := named.filter fun relayId => members.all fun member => lostWith member relayId
  (fatal.insertionSort (· ≤ ·)).head?

/-- The first candidate of each operator, in order of node key. -/
def onePerOperator (p : Platform) (candidates : List NodeCertificate) : List NodeCertificate :=
  let byNodeKey := candidates.insertionSort fun a b => p.localeCompare a.nodeKey b.nodeKey ≤ 0
  (byNodeKey.foldl
    (fun (perOperator : InsertionMap JsString NodeCertificate) candidate =>
      if perOperator.has candidate.operatorId then perOperator
      else perOperator.set candidate.operatorId candidate)
    .empty).values

/-- Take one of each group in turn, at one depth after the other, until `size`
    are taken or a depth has none left. -/
def takeByDepth (groups : List (List NodeCertificate)) (size : Nat) :
    Nat → Nat → List NodeCertificate → List NodeCertificate
  | 0, _, picked => picked
  | fuel + 1, depth, picked =>
    if picked.length < size then
      let row := groups.filterMap fun group => group[depth]?
      if row = [] then picked
      else takeByDepth groups size fuel (depth + 1) (picked ++ row.take (size - picked.length))
    else picked

/-- Spread the choice over as many issuers as there are. -/
def spreadAcrossIssuers (p : Platform) (candidates : List NodeCertificate) (size : Nat) :
    List NodeCertificate :=
  let ordered := candidates.insertionSort
    (p.OrderedBy (fun c => (c.relayIds.length : ℚ)) NodeCertificate.nodeKey)
  let byIssuer := groupInto .empty (ordered.map fun c => (c.issuer, [c]))
  let groups := (byIssuer.entries.insertionSort fun a b => p.localeCompare a.1 b.1 ≤ 0).map
    Prod.snd
  takeByDepth groups size (ordered.length + 1) 0 []

/-- Choose `size` candidates of separate operators. -/
def composeQuorum (p : Platform) (candidates : List NodeCertificate) (rules : QuorumRules) :
    QuorumResult :=
  if candidates = [] then .refused .noCandidates (js "no candidate nodes")
  else
    let perOperator := onePerOperator p candidates
    if perOperator.length < rules.size then
      .refused (.insufficientOperators rules.size perOperator.length)
        (js "quorum of " ++ decimal rules.size ++ js " needs " ++ decimal rules.size
          ++ js " distinct operators, found " ++ decimal perOperator.length)
    else
      let members := spreadAcrossIssuers p perOperator rules.size
      let peerIdOf := rules.peerIdOf.getD fun _ => none
      let shared :=
        if rules.requireIndependentPaths.getD true then sharedRelay members peerIdOf else none
      match shared with
      | some relayId =>
        .refused (.sharedRelayDependency relayId)
          (if members.any fun member => decide (peerIdOf member = some relayId) then
            js "relay " ++ relayId ++ js " is itself a member of the quorum and every other member is discoverable only through it; its failure would lose the whole quorum"
          else
            js "every member of the quorum is discoverable only through relay " ++ relayId
              ++ js "; its failure would lose the whole quorum")
      | none =>
        match distinct (members.map NodeCertificate.issuer) with
        | [issuer] =>
          if rules.requireDistinctIssuers.getD true ∧ 2 ≤ members.length then
            .refused (.singleIssuerQuorum issuer)
              (js "every member of this quorum carries a certificate issued by " ++ issuer
                ++ js "; one provider vouched for all of them, so the redundancy is one party's reach rather than "
                ++ decimal rules.size ++ js " independent ones")
          else
            .composed members (members.map NodeCertificate.operatorId)
              (classifyAttestation members)
        | _ =>
          .composed members (members.map NodeCertificate.operatorId)
            (classifyAttestation members)

/-- What an agreement is reported as. -/
structure AttestationReceipt where
  strength : AttestationStrength
  description : JsString
  replicas : Nat
  operators : List JsString
  issuers : List JsString
  userKeys : List JsString
  sharedRelay : Option JsString
  deriving DecidableEq

def attestationReceipt (agreeing : List NodeCertificate) : AttestationReceipt where
  strength := classifyAttestation agreeing
  description := describeAttestation (classifyAttestation agreeing)
  replicas := agreeing.length
  operators := sortedDistinct (agreeing.map NodeCertificate.operatorId)
  issuers := sortedDistinct (agreeing.map NodeCertificate.issuer)
  userKeys := sortedDistinct (agreeing.map NodeCertificate.userKey)
  sharedRelay := O2Fabric.sharedRelay agreeing fun _ => none

end O2Fabric

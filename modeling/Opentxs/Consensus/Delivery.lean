import Opentxs.Library.Machine

/-! How the context of a client delivers one message to its notary: it sends the message, and after
a timeout works through the nymbox to find out what became of it. A promise tells the caller. -/

namespace Opentxs.Consensus.Delivery
open Library

inductive DeliveryState
  | error
  | idle
  | pendingSend
  | needNymbox
  | needBoxItems
  | needProcessNymbox
  deriving DecidableEq, Repr

inductive LastReplyStatus
  | invalid
  | none
  | messageSuccess
  | messageFailed
  | unknown
  | notSent
  deriving DecidableEq, Repr

inductive SendResult
  | transactionNumbers
  | invalidReply
  | timeout
  | error
  | unnecessary
  | validReply
  | shutdown
  deriving DecidableEq, Repr

inductive MessageType
  | pingNotary
  | registerNym
  | getRequestNumber
  | getNymbox
  | getBoxReceipt
  | processNymbox
  | other
  deriving DecidableEq, Repr

structure Message where
  type : MessageType
  requestNum : Int
  success : Bool := false
  deriving DecidableEq, Repr

abbrev DeliveryResult := LastReplyStatus × Option Message

/-- What the delivery keeps. The results are those that the promise of the current request has
been given. -/
structure Data where
  state : DeliveryState := .idle
  lastStatus : LastReplyStatus := .none
  pendingMessage : Option Message := none
  results : List DeliveryResult := []
  pendingResultSet : Bool := false
  processNymbox : Bool := false
  failureCounter : Nat := 0
  aborted : Bool := false
  deriving DecidableEq

/-- The state stays if none is given. -/
def resolveQueue (data : Data) (result : DeliveryResult) (state : DeliveryState) : Data :=
  { data with
    state := if state ≠ .error then state else data.state
    lastStatus := result.1
    results := result :: data.results
    pendingResultSet := true
    pendingMessage := none
    processNymbox := false }

/-- The status stays if none is given. -/
def updateState (data : Data) (state : DeliveryState) (status : LastReplyStatus) : Data :=
  { data with state, lastStatus := if status ≠ .invalid then status else data.lastStatus }

/-! ## Sending -/

structure Reply where
  status : SendResult
  message : Message
  deriving DecidableEq

/-- What comes back for one message: the first reply, the request number that the notary gives and
whether it could be asked, whether the message could be signed anew, and the second reply. -/
structure Answer where
  first : Reply
  number : Int := 0
  sent : Bool := false
  updated : Bool := false
  second : Reply := first
  deriving DecidableEq

def needRequestNumber (type : MessageType) : Bool := type ∉ [.pingNotary, .registerNym, .getRequestNumber]

def fail (data : Data) (count : Nat) : Data := { data with failureCounter := data.failureCounter + count }

/-- The message may leave with a new request number. -/
def attemptDelivery (data : Data) (message : Message) (answer : Answer) : Data × Message × Reply :=
  match answer.first.status with
  | .validReply =>
    if answer.first.message.success then (data, message, answer.first)
    else if ¬needRequestNumber message.type then (fail data 1, message, answer.first)
    else if answer.number = 0 ∨ ¬answer.sent then (data, message, { answer.first with status := .timeout })
    else
      let message := { message with requestNum := answer.number }
      if ¬answer.updated then (fail data 1, message, { answer.first with status := .timeout })
      else if answer.second.status = .validReply then (data, message, answer.second)
      else (fail data 1, message, answer.second)
  | .timeout | .invalidReply | .error | .shutdown | .transactionNumbers | .unnecessary => (fail data 2, message, answer.first)

/-- Without a message this aborts. -/
def pendingSend (data : Data) (answer : Answer) : Data :=
  match data.pendingMessage with
  | none => { data with aborted := true }
  | some message =>
    let (data, message, reply) := attemptDelivery data message answer
    let data := { data with pendingMessage := some message }
    match reply.status with
    | .validReply =>
      let status := if reply.message.success then .messageSuccess else .messageFailed
      resolveQueue data (status, some reply.message) .idle
    | .timeout | .invalidReply => if needRequestNumber message.type then updateState data .needNymbox .unknown else data
    | .shutdown | .error | .transactionNumbers | .unnecessary => data

/-! ## The nymbox -/

/-- A command of the context's own. -/
def serverCommand (type : MessageType) : Message := { type, requestNum := 0 }

def needNymbox (data : Data) (answer : Answer) : Data :=
  let (data, _, reply) := attemptDelivery data (serverCommand .getNymbox) answer
  match reply.status with
  | .validReply =>
    if reply.message.success then
      let data := if data.processNymbox ∧ data.pendingMessage = none then { data with pendingMessage := some reply.message } else data
      updateState data .needBoxItems .invalid
    else data
  | .shutdown | .timeout | .invalidReply | .error | .transactionNumbers | .unnecessary => data

/-- An item of the nymbox, its receipt and what comes back for it. -/
structure BoxItem where
  number : Int
  transaction : Bool := true
  receiptExists : Bool := true
  answer : Answer
  deriving DecidableEq

/-- Without a count the work stopped. -/
def downloadItems (data : Data) : (count : Nat) → List BoxItem → Data × Option Nat
  | count, [] => (data, some count)
  | count, item :: items =>
    if item.number < 1 then downloadItems data count items
    else if ¬item.transaction then downloadItems data count items
    else if item.receiptExists then downloadItems data (count + 1) items
    else
      let (data, _, reply) := attemptDelivery data (serverCommand .getBoxReceipt) item.answer
      match reply.status with
      | .validReply =>
        if reply.message.success then downloadItems data (count + 1) items
        else (updateState data .needNymbox .invalid, none)
      | .shutdown | .timeout | .invalidReply | .error | .transactionNumbers | .unnecessary => (data, none)

structure BoxItems where
  loaded : Bool := true
  verified : Bool := true
  items : List BoxItem := []
  deriving DecidableEq

def needBoxItems (data : Data) (nymbox : BoxItems) : Data :=
  if ¬nymbox.loaded then data
  else if ¬nymbox.verified then data
  else
    let (data, count) := downloadItems data 0 nymbox.items
    match count with
    | none => data
    | some count => if nymbox.items.length = count then updateState data .needProcessNymbox .invalid else data

/-! ## Accepting the nymbox -/

inductive TransactionType
  | message
  | instrumentNotice
  | notice
  | successNotice
  | replyNotice
  | blank
  | finalReceipt
  | other
  deriving DecidableEq, Repr

/-- Of a reply notice: whether its request number has been acknowledged, and the reply in it. -/
structure Transaction where
  type : TransactionType
  abbreviated : Bool := false
  seen : Bool := false
  reply : Option Message := none
  deriving DecidableEq

structure Acceptance where
  outcomes : List (Int × DeliveryResult) := []
  alreadySeen : Nat := 0
  acceptedItems : Nat := 0
  deriving DecidableEq

/-- The notice of a reply that was not seen before tells the outcome of its request. -/
def processUnseenReply (acceptance : Acceptance) (reply : Option Message) : Acceptance :=
  match reply with
  | none => acceptance
  | some message =>
    let status := if message.success then LastReplyStatus.messageSuccess else .messageFailed
    { acceptance with outcomes := acceptance.outcomes ++ [(message.requestNum, status, some message)] }

def makeAcceptItem (acceptance : Acceptance) : Acceptance := { acceptance with acceptedItems := acceptance.acceptedItems + 1 }

def acceptTransaction (acceptance : Acceptance) (transaction : Transaction) : Acceptance :=
  if transaction.abbreviated ∧ transaction.type ≠ .replyNotice then acceptance
  else
    match transaction.type with
    | .message | .instrumentNotice | .notice | .successNotice | .blank | .finalReceipt => makeAcceptItem acceptance
    | .replyNotice =>
      if transaction.seen then { acceptance with alreadySeen := acceptance.alreadySeen + 1 }
      else makeAcceptItem (processUnseenReply acceptance transaction.reply)
    | .other => acceptance

/-- The nymbox as it is processed, and whether it belongs to the nym, whether the command could be
signed, and what comes back for the command and for the nymbox after it. -/
structure Nymbox where
  loaded : Bool := true
  verified : Bool := true
  transactions : List Transaction := []
  acceptable : Bool := true
  finalized : Bool := true
  answer : Answer
  again : Answer
  deriving DecidableEq

def acceptEntireNymbox (nymbox : Nymbox) : Bool × Acceptance :=
  if nymbox.transactions.length < 1 then (false, {})
  else if ¬nymbox.acceptable then (false, {})
  else
    let acceptance := nymbox.transactions.foldl acceptTransaction {}
    if acceptance.acceptedItems < 1 ∧ acceptance.alreadySeen < 1 then (false, acceptance) else (true, acceptance)

/-- Each outcome of the pending request resolves it, in whatever state the work is. -/
def resolveOutcomes (data : Data) (outcomes : List (Int × DeliveryResult)) : Data :=
  match data.pendingMessage with
  | none => data
  | some pending =>
    outcomes.foldl (fun data outcome => if outcome.1 = pending.requestNum then resolveQueue data outcome.2 .error else data) data

/-- The nymbox holds nothing about the pending message: either there was none to deliver, or the
notary never received it. -/
def nothingLeft (data : Data) : Data :=
  if data.processNymbox then resolveQueue data (.messageSuccess, data.pendingMessage) .idle
  else updateState data .pendingSend .invalid

def needProcessNymbox (data : Data) (nymbox : Nymbox) : Data :=
  if ¬nymbox.loaded then data
  else if ¬nymbox.verified then data
  else if nymbox.transactions.length < 1 then nothingLeft data
  else
    let (accepted, acceptance) := acceptEntireNymbox nymbox
    let data := resolveOutcomes data acceptance.outcomes
    if ¬accepted then
      if acceptance.alreadySeen = nymbox.transactions.length then nothingLeft data
      else updateState data .needNymbox .invalid
    else if ¬nymbox.finalized then data
    else
      let (data, _, reply) := attemptDelivery data (serverCommand .processNymbox) nymbox.answer
      match reply.status with
      | .shutdown => data
      | .validReply =>
        if reply.message.success then
          let (data, _, _) := attemptDelivery data (serverCommand .getNymbox) nymbox.again
          nothingLeft data
        else updateState data .needNymbox .invalid
      | .timeout | .invalidReply | .error | .transactionNumbers | .unnecessary => updateState data .needNymbox .invalid

/-! ## The state machine -/

def failureCountLimit : Nat := 3

/-- What one round of the state machine finds outside. -/
structure Outside where
  answer : Answer
  items : BoxItems
  nymbox : Nymbox
  deriving DecidableEq

def work (data : Data) (outside : Outside) : Data :=
  match data.state with
  | .pendingSend => pendingSend data outside.answer
  | .needNymbox => needNymbox data outside.answer
  | .needBoxItems => needBoxItems data outside.items
  | .needProcessNymbox => needProcessNymbox data outside.nymbox
  | .idle | .error => { data with aborted := true }

/-- One round, and whether there is another one. -/
def stateMachine (data : Data) (outside : Outside) (shutdown : Bool) : Data × Bool :=
  let data := work data outside
  let more := data.state ≠ .idle
  let retry := data.failureCounter ≤ failureCountLimit
  if ¬more then (data, false)
  else if ¬retry then (resolveQueue data (.notSent, none) .idle, false)
  else if shutdown then (resolveQueue data (.notSent, none) .idle, false)
  else (data, true)

/-! ## The thread -/

inductive Phase
  | stopped
  | ready
  | returned (again : Bool)
  deriving DecidableEq, Repr

structure Session where
  data : Data := {}
  phase : Phase := .stopped
  started : Bool := false
  shutdown : Bool := false
  deriving DecidableEq

inductive Event
  | queue (message : Message)
  | refreshNymbox
  | round (outside : Outside)
  | check
  | stop

/-- A new promise takes the place of the last one. After a shutdown no thread is started. -/
def start (session : Session) (message : Option Message) (state : DeliveryState) (processNymbox : Bool) : Session :=
  { session with
    data := updateState { session.data with
      processNymbox
      pendingMessage := message
      pendingResultSet := false
      results := []
      failureCounter := 0 } state .invalid
    phase := if session.shutdown then .stopped else .ready
    started := true }

/-- The thread ends when a round says so, or after a shutdown. A running thread takes no other
request. -/
def step : Event → Session → Option Session
  | .queue message, session =>
    if session.phase ≠ .stopped then some session else some (start session (some message) .pendingSend false)
  | .refreshNymbox, session => if session.phase ≠ .stopped then some session else some (start session none .needNymbox true)
  | .round outside, session =>
    match session.phase with
    | .ready =>
      let (data, again) := stateMachine session.data outside session.shutdown
      some { session with data, phase := .returned again }
    | .stopped | .returned _ => none
  | .check, session =>
    match session.phase with
    | .returned again => some { session with phase := if session.shutdown then .stopped else if again then .ready else .stopped }
    | .stopped | .ready => none
  | .stop, session => some { session with shutdown := true }

def machine : Machine Session Event := ⟨step⟩

end Opentxs.Consensus.Delivery

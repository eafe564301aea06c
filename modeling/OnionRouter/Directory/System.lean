import OnionRouter.Directory.Server
import OnionRouter.Directory.User
import OnionRouter.Lib.Ownership

/-!
# The directory and its users

The server with any number of relays and clients. A relay signs up, serves, and signs out; a
client gathers relays. Every exchange has a connection of its own, with a thread of the
server; messages wait on their way in order, and each is read as a whole. A connection may
break at any time, for either side, and anything may not be sent.

A party is a user with the threads that serve its connections. The entries that the directory
has by its messages are recorded with it.

* `Deployment.machine`: the runs, in any order of the steps.
-/

namespace OnionRouter.Directory

open Client Crypto Lib

/-! ## Deployments -/

/-- What a user is there for. -/
inductive Role
  /-- `run_relay`, on an address. -/
  | relay (sockAddr : List UInt8)
  /-- `gather_relay_map`. -/
  | client (relays : ℕ) (relays_le : relays ≤ maxRelays)

/-- The exchange that a user begins next. -/
def Role.next : Role → UserWaiting → Option Exchange
  | relay sockAddr, .start => some (.signup sockAddr)
  | relay _, .serving => some .signout
  | client relays hrelays, .start => some (.gather relays hrelays)
  | _, _ => none

/-- The server and its users: the variables of `dh.c` of the server, its private number, and
    those that the users draw. -/
structure Deployment (ι : Type) where
  gmp : Gmp
  dh : DhGlobals
  serverPrime : ℕ
  res : Memory UInt8
  role : ι → Role
  prime : ι → ℕ

/-! ## Parties -/

/-- A connection: the thread that serves it, and the messages on their way. -/
structure Line where
  thread : ServerThread
  toServer : List (List UInt8)
  toUser : List (List UInt8)

/-- The thread of a connection has not ended. -/
def Line.Open (line : Line) : Prop := line.thread.waiting ≠ .returned

instance (line : Line) : Decidable line.Open := inferInstanceAs (Decidable (_ ≠ _))

/-- A user, the connection of its latest exchange, those of earlier ones whose threads have
    not ended, and the entries that the directory has by its messages. -/
structure Party where
  user : User
  line : Option Line
  oldLines : List Line
  entries : Finset ℕ

/-- The entries that the party has in the directory `m'`, when it had `entries` in `m`. -/
def entriesAfter (m m' : RelayManager) (entries : Finset ℕ) : Finset ℕ :=
  {id ∈ m'.liveIds | id ∈ entries ∨ id ∉ m.liveIds}

/-- A step of a party. -/
inductive PartyEvent
  /-- The user begins its next exchange. If `connect_server` returns a descriptor, the server
      accepts the connection as `fd`. -/
  | begin (env : UserEnv) (connected : Bool) (fd : SockFd) (buffer threadBuffer : List UInt8)
  /-- The user reads a message, or nothing when the connection is lost. -/
  | user (env : UserEnv) (lost : Bool)
  /-- The thread of the latest connection reads. -/
  | server (env : ServerEnv) (lost : Bool)
  /-- The thread of an earlier one reads. -/
  | oldServer (n : ℕ) (env : ServerEnv) (lost : Bool)

/-- What `read` gives: the next message, or nothing when the connection is lost. -/
def nextMessage (msgs : List (List UInt8)) (lost : Bool) : Option (List UInt8) :=
  if lost then some [] else msgs.head?

section Steps

variable {ι : Type} (D : Deployment ι)

/-- The variables of the server. -/
def Deployment.vars : ServerVars := initServerVars D.gmp D.dh D.serverPrime D.res

/-- The thread of a connection reads. -/
def Line.serve (env : ServerEnv) (lost : Bool) (s : Server) (line : Line) : Option (Server × Line) := do
  let got ← nextMessage line.toServer lost
  let reaction ← line.thread.recv D.gmp D.vars env s got
  return (reaction.server,
    ⟨reaction.thread, line.toServer.tail, line.toUser ++ reaction.toUser⟩)

namespace Party

variable (i : ι) (s : Server) (party : Party)

/-- The connections whose threads have not ended. -/
def openLines : List Line := (party.line.filter (·.Open)).toList ++ party.oldLines

/-- The user begins its next exchange. -/
def begin (env : UserEnv) (connected : Bool) (fd : SockFd) (buffer threadBuffer : List UInt8) :
    Option (Server × Party) := do
  let exchange ← (D.role i).next party.user.waiting
  let reaction := party.user.begin env exchange connected buffer
  if exchange.allowed party.user.vars && connected then
    if fd ∈ s.openFds then none
    else return ({ s with openFds := insert fd s.openFds },
      { party with
        user := reaction.user
        line := some ⟨⟨fd, .request, threadBuffer⟩, reaction.toServer, []⟩
        oldLines := party.openLines })
  else return (s, { party with user := reaction.user })

/-- The user reads. -/
def read (env : UserEnv) (lost : Bool) : Option Party := do
  let line ← party.line
  let got ← nextMessage line.toUser lost
  let reaction ← party.user.recv D.gmp (D.prime i) env got
  return { party with
    user := reaction.user
    line := some { line with
      toServer := line.toServer ++ reaction.toServer
      toUser := line.toUser.tail } }

/-- The thread of the latest connection reads. -/
def serve (env : ServerEnv) (lost : Bool) : Option (Server × Party) := do
  let line ← party.line
  let (s', line) ← line.serve D env lost s
  return (s', { party with
    line := some line
    entries := entriesAfter s.manager s'.manager party.entries })

/-- The thread of an earlier connection reads. When it ends, nothing is left of it. -/
def serveOld (n : ℕ) (env : ServerEnv) (lost : Bool) : Option (Server × Party) := do
  let line ← party.oldLines[n]?
  let (s', line) ← line.serve D env lost s
  return (s', { party with
    oldLines := if line.Open then party.oldLines.set n line else party.oldLines.eraseIdx n
    entries := entriesAfter s.manager s'.manager party.entries })

/-- A step. -/
def step : PartyEvent → Option (Server × Party)
  | .begin env connected fd buffer threadBuffer =>
    party.begin D i s env connected fd buffer threadBuffer
  | .user env lost => (party.read D i env lost).map fun party => (s, party)
  | .server env lost => party.serve D s env lost
  | .oldServer n env lost => party.serveOld D s n env lost

/-- Before a user begins. -/
structure Started : Prop where
  waiting : party.user.waiting = .start
  isKeyInit : party.user.vars.isKeyInit = false
  registerId : party.user.vars.registerId = invalidRelayId
  relayList : party.user.vars.relayList = none
  line : party.line = none
  oldLines : party.oldLines = []
  entries : party.entries = ∅

end Party

/-- The server before it accepts connections. -/
structure Server.Started (s : Server) : Prop where
  manager : ∃ stack, s.manager = initRelayManager stack
  keyList : ∃ memory, s.keyList = initSocketContext memory
  openFds : s.openFds = ∅

/-- The server and its users. -/
def Deployment.parties : Parties ι Server Party PartyEvent where
  init := {s | s.shared.Started ∧ ∀ i, (s.party i).Started}
  step i s party := party.step D i s

/-- The runs of the server and its users. -/
def Deployment.machine [DecidableEq ι] : Machine (Joint ι Server Party) (ι × PartyEvent) :=
  D.parties.machine

/-- The keys of the sockets stay where they are when the list grows. -/
def InPlace : Machine.Guard (Joint ι Server Party) (ι × PartyEvent)
  | _, (_, .server env _) => env.moved = false
  | _, (_, .oldServer _ env _) => env.moved = false
  | _, _ => True

end Steps

end OnionRouter.Directory

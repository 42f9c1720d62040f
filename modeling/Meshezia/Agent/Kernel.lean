import Meshezia.Agent.Reconcile
import Meshezia.Api.Tables
import Meshezia.Lib.PolicyRouting

/-!
# The interfaces on the host (`awg.ts`)

`Host` keeps of the host what decides about endpoints: the interfaces and their AWG peers.
`Kernel` is the rest that `ensureInterface` and `removeInterface` set up: the settings of a
device, its key file, address and sysctl values, the route to the peer, and the policy routing
by marks.  Interface `mza{n}` has the table and the mark `RT_TABLE_BASE + n`, and a rule that
sends the one to the other.

Commands fail (`Faults`): one that is run by `exec` throws then, and `reconcile` catches it and
goes on with the next peer; one that is run by `execSafe` is passed over.  So an interface may
be left half made.

A `Machine` is an agent on such a host, and its `reconcile` is that of the agent with what it
does to the kernel.
-/

namespace Meshezia

/-! ## The commands -/

/-- The destination of a route: every address, `ipv4/32`, or another prefix. -/
inductive Destination where
  | default
  | host (ipv4 : JsString)
  | net (cidr : JsString)
deriving DecidableEq, Repr

inductive Link where
  | mza (ifName : IfName)
  | other (name : JsString)
deriving DecidableEq, Repr

inductive Sysctl where
  | ipForward
  | rpFilterAll
  | rpFilter (ifName : IfName)
deriving DecidableEq, Repr

/-- The settings that `awg set` gives a device. -/
structure Device where
  listenPort : Nat
  privateKey : JsString
  awg : Api.Awg Api.Scalar
deriving DecidableEq, Repr

structure Kernel extends PolicyRoutes Destination Link where
  devices : OMap IfName Device
  addresses : OMap (IfName × JsString) Unit
  up : OMap IfName Unit
  sysctl : OMap Sysctl Nat
  /-- The files `{ifName}.key`, without the newline at their end. -/
  keyFiles : OMap IfName JsString

/-- The commands of `ensureInterface` and `removeInterface`, and the files they write. -/
inductive IfCommand where
  | create | writeKey | awgSet | address | up | route
  | sysctl (key : Sysctl)
  | defaultRoute | ruleShow | ruleAdd
  | flush | ruleShowAll | linkDelete | removeKey
deriving DecidableEq, Repr

/-- What `writeFile` does to the mapping file: it writes it, it cannot open it, or it empties it
and then breaks off, so that what is left of it is no JSON. -/
inductive FileWrite where
  | written
  | refused
  | cut
deriving DecidableEq, Repr

/-- What fails in a call of `reconcile`; a command that fails does nothing.  Not among them is
`ip rule del` of a rule that has just been shown. -/
structure Faults where
  listInterfaces : Bool
  writeMappings : FileWrite
  command : IfName → IfCommand → Bool

def Faults.none : Faults := ⟨false, .written, fun _ _ => false⟩

/-- The number of the table `main`. -/
def MAIN_TABLE : Nat := 254

/-- What `ensureInterface` gets, apart from what it does with the AWG peer. -/
structure EnsureInterfaceOpts where
  ifName : IfName
  selfIpv4 : JsString
  listenPort : Nat
  privateKey : JsString
  awg : Api.Awg Api.Scalar
  meshIpv4 : JsString

namespace Kernel

/-- Commands that are run by `execSafe`, one after the other. -/
def runSafe (fails : IfCommand → Bool) (commands : List (IfCommand × (Kernel → Kernel)))
    (k : Kernel) : Kernel :=
  commands.foldl (fun k c => if fails c.1 then k else c.2 k) k

/-- `awg set IF listen-port P private-key FILE jc …`: the key is read from the file. -/
def awgSet (k : Kernel) (ifName : IfName) (listenPort : Nat) (awg : Api.Awg Api.Scalar) : Kernel :=
  let privateKey := (k.keyFiles.get? ifName).getD []
  { k with devices := k.devices.set ifName { listenPort, privateKey, awg } }

def addrReplace (ifName : IfName) (ipv4 : JsString) (k : Kernel) : Kernel :=
  { k with addresses := k.addresses.set (ifName, ipv4) () }

def linkUp (ifName : IfName) (k : Kernel) : Kernel := { k with up := k.up.set ifName () }

/-- `ip route replace DEST dev IF table T`. -/
def routeReplace (table : Nat) (dest : Destination) (ifName : IfName) (k : Kernel) : Kernel :=
  { k with toPolicyRoutes := k.replace table dest (.mza ifName) }

/-- `ip link delete IF`: the settings of the device go with it, and the routes over it. -/
def linkDelete (ifName : IfName) (k : Kernel) : Kernel :=
  { k with
    toPolicyRoutes := k.forgetLink (.mza ifName)
    devices := k.devices.delete ifName
    addresses := k.addresses.filter fun a _ => !decide (a.1 = ifName)
    up := k.up.delete ifName
    sysctl := k.sysctl.delete (.rpFilter ifName) }

def sysctlSet (key : Sysctl) (value : Nat) (k : Kernel) : Kernel :=
  { k with sysctl := k.sysctl.set key value }

def ensureSysctl (fails : IfCommand → Bool) (ifName : IfName) (k : Kernel) : Kernel :=
  k.runSafe fails [(.sysctl .ipForward, sysctlSet .ipForward 1),
    (.sysctl (.rpFilter ifName), sysctlSet (.rpFilter ifName) 0),
    (.sysctl .rpFilterAll, sysctlSet .rpFilterAll 0)]

/-- The rule that `ip rule add fwmark T lookup T prio T` adds. -/
def markRule (table : Nat) : IpRule := { prio := table, fwmark := some table, table }

/-- The rules that `ip rule show fwmark T lookup T` prints; each line ends in `lookup T`. -/
def markRules (k : Kernel) (table : Nat) : List IpRule :=
  (k.showRules table).filter fun rule => decide (rule.fwmark = some table)

/-- `getTableForIf`, over the base of the tables. -/
def getTableForIf (base : Nat) (ifName : IfName) : Nat := base + ifName

/-- `ip rule add` throws for a rule that is there already. -/
def ensureFwmarkRouting (base : Nat) (fails : IfCommand → Bool) (ifName : IfName) (k : Kernel) :
    Except Kernel Kernel :=
  let table := getTableForIf base ifName
  let k := k.runSafe fails [(.defaultRoute, routeReplace table .default ifName)]
  let rules := if fails .ruleShow then [] else k.markRules table
  if rules = [] then
    if fails .ruleAdd || decide (markRule table ∈ k.rules) then .error k
    else .ok { k with toPolicyRoutes := k.addRule (markRule table) }
  else .ok k

/-- `ip route flush table T`, and `ip rule del lookup T` as long as a rule is shown. -/
def removeFwmarkRouting (base : Nat) (fails : IfCommand → Bool) (ifName : IfName) (k : Kernel) :
    Kernel :=
  let table := getTableForIf base ifName
  k.runSafe fails [(.flush, fun k => { k with toPolicyRoutes := k.flush table }),
    (.ruleShowAll, fun k => { k with toPolicyRoutes := k.dropRules table })]

/-- `ensureInterface` after `createInterface`, up to its end or to a command that throws. -/
def ensureInterface (base : Nat) (fails : IfCommand → Bool) (opts : EnsureInterfaceOpts)
    (k : Kernel) : Except Kernel Kernel :=
  if fails .writeKey then .error k
  else
    let k := { k with keyFiles := k.keyFiles.set opts.ifName opts.privateKey }
    if fails .awgSet then .error k
    else
      let k := k.awgSet opts.ifName opts.listenPort opts.awg
      let k := k.runSafe fails [(.address, addrReplace opts.ifName opts.selfIpv4),
        (.up, linkUp opts.ifName),
        (.route, routeReplace MAIN_TABLE (.host opts.meshIpv4) opts.ifName)]
      (k.ensureSysctl fails opts.ifName).ensureFwmarkRouting base fails opts.ifName

def removeInterface (base : Nat) (fails : IfCommand → Bool) (ifName : IfName) (k : Kernel) : Kernel :=
  (k.removeFwmarkRouting base fails ifName).runSafe fails [(.linkDelete, linkDelete ifName),
    (.removeKey, fun k => { k with keyFiles := k.keyFiles.delete ifName })]

end Kernel

/-! ## An agent on its host -/

/-- A turn of the first loop up to `ensureInterface`, unless `getPort` throws: what is to be set
up, and whether the interface is new. -/
def Agent.prepare (s : Agent) (existing : List IfName) (draws : List Nat) (peer : PeerEndpoint) :
    Except Agent (Agent × Target × Bool) :=
  let (ifName, peerToIf) := getIfName s.peerToIf peer.id
  let s := { s with peerToIf, dirty := s.dirty || !s.peerToIf.has peer.id }
  let isNew := !existing.contains ifName
  match s.listenPortOf peer draws with
  | none => .error s
  | some (listenPort, peerToPort) =>
    let dirty := s.dirty || decide (s.peerToPort.get? peer.id ≠ some listenPort)
    let s := { s with peerToPort, dirty }
    .ok (s, { peer, ifName, listenPort, skipEndpoint := s.skipEndpoint peer.id isNew }, isNew)

/-- What an agent is started with. -/
structure Install where
  rtTableBase : Nat
  privateKey : JsString

/-- A configuration with what it says of the agent's own interfaces. -/
structure MeshConfig extends PeerConfig where
  selfIpv4 : JsString
  awg : Api.Awg Api.Scalar

structure Machine where
  agent : Agent
  kernel : Kernel

/-- What `ensureInterface` gets for a peer. -/
def Target.opts (t : Target) (env : Install) (config : MeshConfig) : EnsureInterfaceOpts where
  ifName := t.ifName
  selfIpv4 := config.selfIpv4
  listenPort := t.listenPort
  privateKey := env.privateKey
  awg := config.awg
  meshIpv4 := t.peer.meshIpv4

namespace Machine

/-- `ensureInterface`; `ip link add` throws for an interface that is there already. -/
def ensureInterface (env : Install) (fails : IfCommand → Bool) (config : MeshConfig) (m : Machine)
    (t : Target) (isNew : Bool) : Except Machine Machine :=
  if isNew && (fails .create || m.agent.host.interfaces.contains t.ifName) then .error m
  else
    let agent := if isNew then { m.agent with host := m.agent.host.linkAdd t.ifName } else m.agent
    let agent := if fails .writeKey || fails .awgSet then agent else agent.configure t
    match m.kernel.ensureInterface env.rtTableBase fails (t.opts env config) with
    | .error kernel => .error { agent, kernel }
    | .ok kernel => .ok { agent, kernel }

/-- A turn of the first loop.  When `ensureInterface` throws, there is no port to report. -/
def reconcilePeer (env : Install) (faults : Faults) (m : Machine) (config : MeshConfig)
    (existing : List IfName) (draws : List Nat) (peer : PeerEndpoint) :
    Except Machine (Machine × Option Nat) :=
  match m.agent.prepare existing draws peer with
  | .error agent => .error { m with agent }
  | .ok (agent, t, isNew) =>
    match ({ m with agent } : Machine).ensureInterface env (faults.command t.ifName) config t
        isNew with
    | .error m => .ok (m, none)
    | .ok m => .ok (m, some t.listenPort)

def reconcileLoop (env : Install) (faults : Faults) (config : MeshConfig) (existing : List IfName)
    (draws : PeerId → List Nat) (m : Machine) (ports : List (PeerId × Nat)) :
    List PeerEndpoint → Except Machine (Machine × List (PeerId × Nat))
  | [] => .ok (m, ports)
  | peer :: rest =>
    if peer.pubkey = [] then reconcileLoop env faults config existing draws m ports rest
    else
      match m.reconcilePeer env faults config existing (draws peer.id) peer with
      | .error m => .error m
      | .ok (m, none) => reconcileLoop env faults config existing draws m ports rest
      | .ok (m, some port) =>
        reconcileLoop env faults config existing draws m (ports ++ [(peer.id, port)]) rest

/-- A turn of the second loop: the peer is forgotten, whether its interface could be deleted or
not. -/
def removeGonePeer (env : Install) (faults : Faults) (m : Machine) (e : PeerId × IfName) :
    Machine where
  agent :=
    let host := m.agent.host
    { m.agent.removeGonePeer e with
      host := if faults.command e.2 .linkDelete then host else host.linkDelete e.2 }
  kernel := m.kernel.removeInterface env.rtTableBase (faults.command e.2) e.2

def removeGone (env : Install) (faults : Faults) (m : Machine) (config : MeshConfig) : Machine :=
  (m.agent.peerToIf.entries.filter fun e => !Agent.isDesired config.toPeerConfig e.1).foldl
    (removeGonePeer env faults) m

/-- `listInterfaces`. -/
def listInterfaces (faults : Faults) (m : Machine) : List IfName :=
  if faults.listInterfaces then [] else m.agent.host.interfaces

/-- `loadMappings` finds nothing in a file that is no JSON. -/
def saveMappings (faults : Faults) (m : Machine) : Except Machine Machine :=
  if m.agent.dirty then
    match faults.writeMappings with
    | .written => .ok { m with agent := m.agent.saveMappings }
    | .refused => .error m
    | .cut => .error { m with agent := { m.agent with mappings := [] } }
  else .ok m

def reconcile (env : Install) (faults : Faults) (m : Machine) (config : MeshConfig)
    (draws : PeerId → List Nat) : Except Machine (Machine × List (PeerId × Nat)) :=
  match m.reconcileLoop env faults config (m.listInterfaces faults) draws [] config.peers with
  | .error m => .error m
  | .ok (m, ports) =>
    match (m.removeGone env faults config).saveMappings faults with
    | .error m => .error m
    | .ok m => .ok (m, ports)

end Machine

end Meshezia

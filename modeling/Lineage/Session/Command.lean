import Lineage.Session.Basic

/-!
# Commands

What can be done in a session, whatever its sources are. A list of commands is a script.
-/

namespace Lineage.Session

/-- What can be read off a level graph without asking anybody. -/
inductive Reading where
  | summary
  | level (n : Nat)
  | display
  | contains (t : Token)
  | find (t : Token)
  | everything
  | debug
  | debugNode (t : Token)
  deriving DecidableEq, Repr

/-- Something to do in a session. Graphs and refreshers are named. -/
inductive Command where
  /-- from now on the caller is a user, or nobody -/
  | callAs (user : Scope)
  /-- from now on the caller is whoever is logged in -/
  | callAsLoggedIn
  | login (user : Scope)
  | whoAmI
  /-- asks a source, without the cache -/
  | ask (category : Category) (t : Token)
  /-- asks the merged sources, without the cache -/
  | askMerged (t : Token)
  /-- asks through the cache, under the given scope or the caller's own -/
  | parents (b : Branch) (scope : Option Scope) (t : Token)
  | keep (b : Branch) (user : Scope) (t : Token) (a : Answer)
  | lookup (b : Branch) (user : Scope) (t : Token)
  | flush
  | stats
  | build (name : String) (root : Token) (search : Search) (onlyOne : Bool)
  | expandAll (name : String)
  | findLevel (name : String) (n : Nat)
  | read (name : String) (what : Reading)
  /-- the node of a graph that has the number of a token's node in another graph -/
  | nodeOf (name other : String) (t : Token)
  | diff (before after : String) (take : Option Nat)
  | start (name : String) (root : Token)
  | linked (name other : String) (t : Option Token)
  | allPaths (name other : String) (t : Option Token)
  | pathToken (name other : String) (t : Option Token)
  | isExpanded (name other : String) (t : Option Token)
  | findPathNode (name : String) (t : Token)
  | prepare (name : String) (parent : Token) (console : Bool) (requestId : String)
  | post (name : String) (child : Token)
  | readBefore (name : String)
  | readConsole (name : String)
  | debugContext
  | debugCache
  | debugSources
  | debugPaths (name : String)
  | debugRefresher (name : String)
  | debugServices (console : Bool)
  deriving DecidableEq, Repr

/-- What a reading of a level graph shows. -/
def Reading.shown (g : LevelGraph) : Reading → Shown
  | .summary => .summary g
  | .level n => .level g n (g.level? n)
  | .display => .text g.display
  | .contains t => .flag (g.contains t)
  | .find t => .node ((g.find? t).bind fun i => (g.node? i).map (i, ·))
  | .everything => .graph g
  | .debug => .text g.debug
  | .debugNode t => .text (g.debugNode t)

variable {σ : Type}

/-- The number of a token's node in a path graph, of the root if there is no token. -/
def pathNode (name : String) (t : Option Token) : Doing σ NodeId := do
  let g ← pathGraph name
  match g.find? (t.getD g.root) with
  | some i => pure i
  | none => .fail (.missing .node)

variable [Sources σ]

/-- Does a command. -/
def Command.run : Command → Doing σ Shown
  | .callAs user => do
    Act.modify fun s => { s with caller := .fixed user }
    pure (.scope (← Act.get).scope)
  | .callAsLoggedIn => do
    Act.modify fun s => { s with caller := .loggedIn }
    pure (.scope (← Act.get).scope)
  | .login user => do
    Act.modify fun s => { s with login := user }
    pure (.scope (← Act.get).scope)
  | .whoAmI => do pure (.caller (← Act.get).scope)
  | .ask category t => do pure (.answer (← inContext (Context.ask category t)))
  | .askMerged t => do pure (.answer (← inContext (Context.askMerged t)))
  | .parents b scope t => do
    let scope := scope.getD (← Act.get).scope
    pure (.answer (← inContext (Context.parents scope b t)))
  | .keep b user t a => do
    inContext (Context.keep b user t a)
    let cache := (← Act.get).context.cache
    pure (.sizes (cache.size .native) (cache.size .hooked))
  | .lookup b user t => do pure (.entry (← inContext (Context.lookup b user t)))
  | .flush => do
    inContext Context.flush
    pure .nothing
  | .stats => do pure (.cache (← Act.get).context.cache)
  | .build name root search onlyOne => do
    let g ← inContext (LevelGraph.build (← Act.get).scope search root onlyOne)
    keepGraph name g
    pure (.summary g)
  | .expandAll name => do
    grow name Growing.expandAll
    pure (.summary (← graph name))
  | .findLevel name n => do
    let ids ← grow name (Growing.level? n)
    pure (.level (← graph name) n ids)
  | .read name what => do pure (what.shown (← graph name))
  | .nodeOf name other t => do
    match (← graph other).find? t with
    | none => .fail (.missing .node)
    | some i =>
      let n ← (Act.ofExcept ((← graph name).node i)).mapError .error
      pure (.node (some (i, n)))
  | .diff before after take => do
    let ts ← inContext (Difference.find (← graph before) (← graph after))
    pure (.tokens (match take with | some n => ts.take n | none => ts))
  | .start name root => do
    let g := PathGraph.start root
    Act.modify fun s => { s with explored := s.explored.set name g }
    pure (.begun g.size)
  | .linked name other t => do
    let i ← pathNode other t
    let ids ← explore name (Exploring.parents i)
    let g ← pathGraph name
    pure (.linked ids (g.tokens ids) g.size)
  | .allPaths name other t => do
    let i ← pathNode other t
    let paths ← explore name (Exploring.allPaths PathGraph.pathLimit i)
    pure (.paths (paths.getD []) (← pathGraph name).size)
  | .pathToken name other t => do
    let i ← pathNode other t
    let t ← (Act.ofExcept ((← pathGraph name).token i)).mapError .error
    pure (.token t)
  | .isExpanded name other t => do
    let i ← pathNode other t
    pure (.flag ((← pathGraph name).isExpanded i))
  | .findPathNode name t => do pure (.id ((← pathGraph name).find? t))
  | .prepare name parent console requestId => do
    let s ← Act.get
    let r ← inContext (Refresher.new s.scope requestId console parent)
    Act.modify fun s => { s with refreshers := s.refreshers.set name (s.caller, r) }
    pure (.summary r.before)
  | .post name child => do
    let n ← refresh name fun scope => Refreshing.post scope child
    pure (.sent n (← refresher name).2.sent)
  | .readBefore name => do pure (.graph (← refresher name).2.before)
  | .readConsole name => do pure (.tokens (← refresher name).2.sent)
  | .debugContext => do pure (.text (← Act.get).debugContext)
  | .debugCache => do pure (.text (← Act.get).context.cache.debug)
  | .debugSources => pure (.text (Text.openRecord "AncestorSources" []))
  | .debugPaths name => do pure (.text (← pathGraph name).debug)
  | .debugRefresher name => do pure (.text (← refresher name).2.debug)
  | .debugServices console => pure (.text (Refresher.debugServices console))

end Lineage.Session

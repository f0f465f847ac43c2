import Aivm.Machine.Builders

/-!
# Histories of maps

What has been done to the maps of a machine, as a list of events, and what a map holds according to it.
-/

namespace Aivm

/-- A map operation that has succeeded. -/
inductive MapEvent where
  | made (handle : Nat)
  | put (handle : Nat) (key : List Byte) (value : Int)
  | finished (handle : Nat)
deriving DecidableEq, Repr

/-- The key and the value that an event puts into a map. -/
def MapEvent.entry (handle : Nat) : MapEvent → Option (List Byte × Int)
  | .put h key value => if h = handle then some (key, value) else none
  | _ => none

/-- What has been put into a map, oldest first. -/
def entriesOf (handle : Nat) (history : List MapEvent) : List (List Byte × Int) :=
  history.filterMap (MapEvent.entry handle)

/-- The value put last for a key. -/
def lastPut (handle : Nat) (key : List Byte) (history : List MapEvent) : Option Int :=
  (entriesOf handle history).reverse.lookup key

/-- The keys put into a map. -/
def keysOf (handle : Nat) (history : List MapEvent) : Finset (List Byte) :=
  ((entriesOf handle history).map Prod.fst).toFinset

/-- A machine whose maps have this history: operations on maps succeed or are refused, and in between anything may
happen elsewhere. -/
inductive MapRun (env : Env) : List MapEvent → Vm → Prop where
  | start {vm : Vm} : vm.maps = [] → MapRun env [] vm
  | made {history : List MapEvent} {vm vm' : Vm} {handle : Nat} : MapRun env history vm →
      (mapBuilderNewRecord env).run vm = .ok handle vm' → MapRun env (history ++ [.made handle]) vm'
  | put {history : List MapEvent} {vm vm' : Vm} {handle : Nat} {key : List Byte} {value : Int} {u : Unit} :
      MapRun env history vm → (mapBuilderPutStringIntRecord env handle key value).run vm = .ok u vm' →
      MapRun env (history ++ [.put handle key value]) vm'
  | finished {history : List MapEvent} {vm vm' : Vm} {handle : Nat} {u : Unit} : MapRun env history vm →
      (mapBuilderFinishRecord env handle).run vm = .ok u vm' → MapRun env (history ++ [.finished handle]) vm'
  | notMade {history : List MapEvent} {vm vm' : Vm} : MapRun env history vm →
      (mapBuilderNewRecord env).run vm = .fail vm' → MapRun env history vm'
  | notPut {history : List MapEvent} {vm vm' : Vm} {handle : Nat} {key : List Byte} {value : Int} :
      MapRun env history vm → (mapBuilderPutStringIntRecord env handle key value).run vm = .fail vm' →
      MapRun env history vm'
  | notFinished {history : List MapEvent} {vm vm' : Vm} {handle : Nat} : MapRun env history vm →
      (mapBuilderFinishRecord env handle).run vm = .fail vm' → MapRun env history vm'
  | elsewhere {history : List MapEvent} {vm vm' : Vm} : MapRun env history vm → vm'.maps = vm.maps →
      MapRun env history vm'

end Aivm

import Symkernel.Library.GoMap
import Symkernel.Library.Resp

/-!
# The commands GET, SET and DEL of a Redis server

A store of strings with deadlines in milliseconds, as the commands are documented: a key whose
deadline has passed is not there and is removed when it is accessed; `SET` replaces the value and
the deadline, and answers a `PX` that is not positive with an error.
-/

namespace Symkernel.Library.RedisServer

open Resp Finmap

structure Entry where
  value : GoString
  deadline : Option Int

abbrev Store := GoMap GoString Entry

def Entry.expired (e : Entry) (now : Int) : Bool :=
  e.deadline.any fun deadline => deadline < now

def textBytes (s : String) : GoString := s.toList.map charByte

def okReply : Reply := .simple (textBytes "OK")

def wrongArguments : Reply := .error (textBytes "ERR wrong number of arguments")

def syntaxError : Reply := .error (textBytes "ERR syntax error")

def notAnInteger : Reply := .error (textBytes "ERR value is not an integer or out of range")

def invalidExpire : Reply := .error (textBytes "ERR invalid expire time in 'set' command")

def unknownCommand : Reply := .error (textBytes "ERR unknown command")

def getName : GoString := textBytes "GET"

def setName : GoString := textBytes "SET"

def pxName : GoString := textBytes "PX"

def delName : GoString := textBytes "DEL"

section Commands

variable (now : Int)

def access (store : Store) (key : GoString) : Store :=
  if (store.lookup key).any fun e => e.expired now then store.erase key else store

def get (store : Store) (key : GoString) : Store × Reply :=
  let store := access now store key
  match store.lookup key with
  | none => (store, .nilBulk)
  | some e => (store, .bulk 0 e.value)

def set (store : Store) (key value : GoString) : Option Int → Store × Reply
  | none => (store.insert key { value, deadline := none }, okReply)
  | some px =>
    if px ≤ 0 then (store, invalidExpire)
    else (store.insert key { value, deadline := some (now + px) }, okReply)

def delKey (r : Store × Nat) (key : GoString) : Store × Nat :=
  let store := access now r.1 key
  if key ∈ store then (store.erase key, r.2 + 1) else (store, r.2)

def del (store : Store) (keys : List GoString) : Store × Reply :=
  let r := keys.foldl (delKey now) (store, 0)
  (r.1, .integer .none 0 r.2)

def getCommand (store : Store) : List GoString → Store × Reply
  | [key] => get now store key
  | _ => (store, wrongArguments)

def setCommand (store : Store) : List GoString → Store × Reply
  | [key, value] => set now store key value none
  | [key, value, option, number] =>
    if option = pxName then
      match parseInt64 number with
      | some px => set now store key value (some px)
      | none => (store, notAnInteger)
    else (store, syntaxError)
  | args => (store, if args.length < 2 then wrongArguments else syntaxError)

def delCommand (store : Store) : List GoString → Store × Reply
  | [] => (store, wrongArguments)
  | keys => del now store keys

/-- The store after a command at `now`, and the reply. -/
def command (store : Store) : List GoString → Store × Reply
  | [] => (store, unknownCommand)
  | name :: args =>
    if name = getName then getCommand now store args
    else if name = setName then setCommand now store args
    else if name = delName then delCommand now store args
    else (store, unknownCommand)

end Commands

section Lookup

variable (now : Int) (store : Store)

lemma command_get (key : GoString) : command now store [getName, key] = get now store key := by
  rw [command, if_pos rfl, getCommand]

lemma command_set (key value : GoString) :
    command now store [setName, key, value] = set now store key value none := by
  rw [command, if_neg (by decide), if_pos rfl, setCommand]

lemma command_set_px (key value : GoString) {number : GoString} {px : Int}
    (h : parseInt64 number = some px) : command now store [setName, key, value, pxName, number] =
      set now store key value (some px) := by
  rw [command, if_neg (by decide), if_pos rfl, setCommand, if_pos rfl, h]

lemma command_del {keys : List GoString} (h : keys ≠ []) :
    command now store (delName :: keys) = del now store keys := by
  cases keys with
  | nil => exact absurd rfl h
  | cons key keys => rfl

lemma lookup_access (key k : GoString) : (access now store key).lookup k =
      if k = key then (store.lookup k).filter fun e => !e.expired now else store.lookup k := by
  unfold access
  by_cases hk : k = key
  · rw [if_pos hk, hk]
    cases hlookup : store.lookup key with
    | none =>
      rw [Option.any_none, if_neg (by decide), hlookup]
      rfl
    | some e =>
      rw [Option.any_some]
      cases hexpired : e.expired now with
      | true =>
        rw [if_pos rfl, lookup_erase, Option.filter_some, hexpired]
        rfl
      | false =>
        rw [if_neg (by decide), hlookup, Option.filter_some, hexpired]
        rfl
  · split
    · exact lookup_erase_ne hk
    · rfl

lemma lookup_delKey (count : Nat) (key k : GoString) :
    (delKey now (store, count) key).1.lookup k = if k = key then none else store.lookup k := by
  have haccess := lookup_access now store key
  unfold delKey
  simp only
  by_cases hk : k = key
  · rw [if_pos hk, hk]
    split
    · exact lookup_erase _ _
    · exact Finmap.lookup_eq_none.mpr (by assumption)
  · split
    · rw [lookup_erase_ne hk, haccess, if_neg hk]
    · rw [haccess, if_neg hk]

lemma lookup_foldl_delKey (keys : List GoString) (r : Store × Nat) (k : GoString) :
    (keys.foldl (delKey now) r).1.lookup k = if k ∈ keys then none else r.1.lookup k := by
  induction keys generalizing r with
  | nil => rw [List.foldl_nil, if_neg List.not_mem_nil]
  | cons key keys ih =>
    rw [List.foldl_cons, ih, lookup_delKey now r.1 r.2]
    by_cases hk : k = key
    · simp [hk]
    · simp [hk]

lemma count_delKey (count : Nat) (key : GoString) : (delKey now (store, count) key).2 =
      if ((store.lookup key).filter fun e => !e.expired now).isSome then count + 1 else count := by
  have hmem : key ∈ access now store key ↔
      ((store.lookup key).filter fun e => !e.expired now).isSome = true := by
    rw [← lookup_isSome, lookup_access, if_pos rfl]
  unfold delKey
  simp only [hmem]
  split <;> rfl

lemma count_foldl_delKey_le (keys : List GoString) (r : Store × Nat) :
    (keys.foldl (delKey now) r).2 ≤ r.2 + keys.length := by
  induction keys generalizing r with
  | nil => exact Nat.le_refl _
  | cons key keys ih =>
    have hkey : (delKey now r key).2 ≤ r.2 + 1 := by
      rw [count_delKey now r.1 r.2 key]
      split <;> omega
    have hkeys := ih (delKey now r key)
    rw [List.foldl_cons, List.length_cons]
    omega

end Lookup

end Symkernel.Library.RedisServer

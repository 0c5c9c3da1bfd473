/-!
The tables of a TOML document. A table remembers what made it, since only that decides who may
still add to it: dotted keys add to tables made by dotted keys, and a header names a table once.
-/
namespace MessageCatalog.Toml

inductive Origin
  /-- Written between braces: complete. -/
  | inline
  /-- Named by a header. -/
  | header
  /-- Named on the way to the table of a header. -/
  | implied
  /-- Named by a dotted key. -/
  | dotted
deriving DecidableEq, Repr

inductive Value
  | string (value : String)
  | integer (value : Int)
  | float (text : String)
  | boolean (value : Bool)
  | dateTime (text : String)
  | array (items : List Value)
  | table (origin : Origin) (entries : List (String × Value))
  /-- The tables that headers in double brackets name, in order. -/
  | tables (elements : List (List (String × Value)))
deriving Inhabited

/-- The entries of a table, each name once. -/
abbrev Entries := List (String × Value)

namespace Entries

def set (name : String) (value : Value) : Entries → Entries
  | [] => [(name, value)]
  | entry :: rest =>
      if entry.1 = name then (name, value) :: rest else entry :: set name value rest

/-- Adds a value under a dotted key. -/
def insert (value : Value) : List String → Entries → Option Entries
  | [], _ => none
  | [name], entries =>
      match entries.lookup name with
      | none => some (entries.set name value)
      | some _ => none
  | name :: next :: path, entries =>
      match entries.lookup name with
      | none => do
          let sub ← insert value (next :: path) []
          return entries.set name (.table .dotted sub)
      | some (.table sub entries') =>
          if sub = .inline ∨ sub = .header ∨ (path.isEmpty ∧ sub ≠ .dotted) then none
          else do
            let added ← insert value (next :: path) entries'
            return entries.set name (.table sub added)
      | some (.tables elements) =>
          if path.isEmpty then none
          else do
            let added ← insert value (next :: path) (elements.getLast?.getD [])
            return entries.set name (.tables (elements.dropLast ++ [added]))
      | some _ => none

/-- Fills the table that a header names; a header in double brackets adds a table to a list. -/
def fill (listed : Bool) (body : Entries → Option Entries) : List String → Entries → Option Entries
  | [], _ => none
  | [name], entries =>
      match entries.lookup name, listed with
      | none, false => do return entries.set name (.table .header (← body []))
      | none, true => do return entries.set name (.tables [← body []])
      | some (.table .implied sub), false => do
          return entries.set name (.table .header (← body sub))
      | some (.tables elements), true => do
          return entries.set name (.tables (elements ++ [← body []]))
      | _, _ => none
  | name :: next :: path, entries =>
      match entries.lookup name with
      | none => do
          return entries.set name (.table .implied (← fill listed body (next :: path) []))
      | some (.table origin sub) =>
          if origin = .inline then none
          else do return entries.set name (.table origin (← fill listed body (next :: path) sub))
      | some (.tables elements) => do
          let added ← fill listed body (next :: path) (elements.getLast?.getD [])
          return entries.set name (.tables (elements.dropLast ++ [added]))
      | some _ => none

end Entries

end MessageCatalog.Toml

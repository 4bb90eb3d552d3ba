import DeclarationIndex.Index.Basic

/-!
The edits of an index and what each answers: how many entries it touched, or what it put out.
-/

namespace DeclarationIndex

inductive Edit where
  | insert (entry : Entry)
  | update (name : String) (change : Entry → Entry)
  | setVisibility (name : String) (visibility : Visibility)
  | replace (name : String) (entries : List Entry)
  | eraseFile (path : String)
  | clear

inductive Reply where
  | nothing
  | count (touched : Nat)
  | former (entries : List Entry)
  deriving DecidableEq

namespace Index

def perform (index : Index) : Edit → Reply × Index
  | .insert entry => (.nothing, index.insert entry)
  | .update name change => (.count (index.get name).length, index.update name change)
  | .setVisibility name visibility =>
      (.count (index.get name).length, index.setVisibility name visibility)
  | .replace name entries => (.former (index.get name), index.replace name entries)
  | .eraseFile path => (.count (index.countFile path), index.eraseFile path)
  | .clear => (.nothing, empty)

def performAll (index : Index) : List Edit → List Reply × Index
  | [] => ([], index)
  | edit :: rest =>
      let (reply, next) := index.perform edit
      let (replies, last) := next.performAll rest
      (reply :: replies, last)

end Index

end DeclarationIndex

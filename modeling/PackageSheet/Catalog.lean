import PackageSheet.Sheet.Basic
import PackageSheet.Text.Quoted

/-!
Typed views of rules by the parameters of their selectors. A view is made once; a selector without a
rule gets an empty one, so that every question has an answer.
-/

namespace PackageSheet

/-- A catalog gives each selector of a rule name, by its parameter, a typed view of the rule
behind it, and keeps the views it has made. -/
structure Catalog (α : Type) where
  ruleName : String
  view : Sheet → Nat → α
  cache : List (String × α) := []

/-- What comes of consulting a catalog: the view, the catalog and the sheet afterwards, and
whether a rule had to be synthesized. -/
structure Consulted (α : Type) where
  value : α
  catalog : Catalog α
  sheet : Sheet
  synthesized : Bool

namespace Catalog

variable {α : Type}

def cached? (catalog : Catalog α) (key : String) : Option α :=
  (catalog.cache.find? (·.1 == key)).map (·.2)

def keep (catalog : Catalog α) (key : String) (value : α) : Catalog α :=
  { catalog with cache := catalog.cache ++ [(key, value)] }

def missingRule (catalog : Catalog α) (key : String) : Rule :=
  .synthesize catalog.ruleName (if key = "" then none else some key)

/-- The view of a key. It is made from the first rule with the selector when it is asked for
the first time; where there is no rule, an empty one is put at the end of the sheet. -/
def consult (catalog : Catalog α) (sheet : Sheet) (key : String) : Consulted α :=
  match catalog.cached? key with
  | some value => ⟨value, catalog, sheet, false⟩
  | none =>
    match sheet.select catalog.ruleName (some key) with
    | index :: _ =>
      let value := catalog.view sheet index
      ⟨value, catalog.keep key value, sheet, false⟩
    | [] =>
      let extended := sheet.push (catalog.missingRule key)
      let value := catalog.view extended sheet.rules.length
      ⟨value, catalog.keep key value, extended, true⟩

def keys (catalog : Catalog α) (sheet : Sheet) : List String :=
  sheet.parameters catalog.ruleName

/-- The views of some keys, one after another. -/
def consultAll (catalog : Catalog α) (sheet : Sheet) :
    List String → List (String × α) × Catalog α × Sheet
  | [] => ([], catalog, sheet)
  | key :: keys =>
    let found := catalog.consult sheet key
    let (others, last, extended) := found.catalog.consultAll found.sheet keys
    ((key, found.value) :: others, last, extended)

/-- The keys that have a view, as they are shown. -/
def describe (catalog : Catalog α) : String :=
  let keys := (catalog.cache.map (·.1)).mergeSort (· ≤ ·)
  let shown := ", ".intercalate (keys.map Text.quoted)
  s!"SelectorIndex \x7b cached: [{shown}], .. \x7d"

def describePending (count : Nat) : String :=
  s!"Entries \x7b remaining: {count}, .. \x7d"

end Catalog

end PackageSheet

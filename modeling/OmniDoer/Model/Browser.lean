import OmniDoer.Library.PyJson

/-! # The controlled browser

The part of `omni_browser/controller.py` that the broker and the challenge relay call, and
a page with its forms behind it. -/

namespace OmniDoer.Browser

open Py

/-- A form as `inspect_forms` reports it. -/
structure Form where
  action : String
  deriving DecidableEq, Repr

/-- What a `BrowserController` answers. The fills are numbered, since the page may change
between them. -/
structure Controller where
  currentUrl : String
  inspectForms : List Form
  fillField : ℕ → String → String → Except Error Unit

/-- The action of the first form of the document. -/
def Controller.inspectFormAction (browser : Controller) : Option String :=
  browser.inspectForms.head?.map Form.action

/-- The attributes of an element that selectors look at. -/
structure Element where
  tag : String
  type : String := ""
  name : String := ""
  id : String := ""
  autocomplete : String := ""
  deriving DecidableEq, Repr

/-- The elements stand in document order; each belongs to one of the forms or to none. -/
structure Page where
  url : String
  forms : List Form
  elements : List (Element × Option (Fin forms.length))

/-- What the engine behind the page decides: which elements a selector matches, and
whether an element takes a value. -/
structure Engine where
  matchesSelector : String → Element → Bool
  accepts : Element → String → Except Error Unit

/-- The first element in document order that the selector matches. -/
def Page.target (page : Page) (engine : Engine) (selector : String) :
    Option (Element × Option (Fin page.forms.length)) :=
  page.elements.find? fun e => engine.matchesSelector selector e.1

/-- `page.fill`. -/
def Page.fill (page : Page) (engine : Engine) (selector value : String) : Except Error Unit :=
  match page.target engine selector with
  | some (element, _) => engine.accepts element value
  | none => .error ⟨.timeoutError, "Page.fill: Timeout 30000ms exceeded."⟩

/-- The controller of a page that does not change. -/
def Page.controller (page : Page) (engine : Engine) : Controller where
  currentUrl := page.url
  inspectForms := page.forms
  fillField := fun _ => page.fill engine

end OmniDoer.Browser

import NetworkServers.Library.Dict
import NetworkServers.Library.JsString

/-!
# JavaScript Objects as Dictionaries

Programs that use plain objects as dictionaries also find the properties that objects
inherit. An object literal `{}`, and an object that `JSON.parse` returns, inherits the
properties of `Object.prototype`, all of which are objects or functions.
-/

namespace NetworkServers.Js

/-- The names of the properties of `Object.prototype`. -/
def objectPrototype : List JsString :=
  [js "constructor", js "__defineGetter__", js "__defineSetter__", js "hasOwnProperty",
    js "__lookupGetter__", js "__lookupSetter__", js "isPrototypeOf",
    js "propertyIsEnumerable", js "toString", js "valueOf", js "__proto__",
    js "toLocaleString"]

/-- What looking up a key in an object gives. -/
inductive Property (V : Type) where
  /-- The object has the key itself. -/
  | own (v : V)
  /-- An object or a function, inherited from `Object.prototype`. -/
  | inherited
  /-- `undefined`. -/
  | missing

variable {V : Type}

/-- `object[key]`. -/
def property (object : Dict JsString V) (key : JsString) : Property V :=
  match object.get? key with
  | some v => .own v
  | none => if key ∈ objectPrototype then .inherited else .missing

/-- The key that `object[id]` looks up. -/
def propertyKey (id : Option JsString) : JsString := id.getD (js "undefined")

/-- `object[key] = value` for a string or `undefined`. Setting the prototype to such a
value does nothing. -/
def assignField (object : Dict JsString (Option JsString)) (key : JsString)
    (value : Option JsString) : Dict JsString (Option JsString) :=
  if key = js "__proto__" then object else object.set key value

/-- `object.name` for a name that is not inherited. -/
def field (object : Dict JsString (Option JsString)) (name : JsString) : Option JsString :=
  (object.get? name).join

theorem property_own {object : Dict JsString V} {key : JsString} {v : V}
    (h : object.get? key = some v) : property object key = .own v := by
  rw [property, h]

theorem property_inherited {object : Dict JsString V} {key : JsString}
    (h : object.get? key = none) (hkey : key ∈ objectPrototype) :
    property object key = .inherited := by
  rw [property, h]
  exact if_pos hkey

theorem property_missing {object : Dict JsString V} {key : JsString}
    (h : object.get? key = none) (hkey : key ∉ objectPrototype) :
    property object key = .missing := by
  rw [property, h]
  exact if_neg hkey

end NetworkServers.Js

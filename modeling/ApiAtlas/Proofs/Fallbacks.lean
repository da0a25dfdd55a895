import ApiAtlas.Settings.Inquiry

/-!
# Fallbacks respect what is set

A setting that is made stays as it is; one that is not made is taken from a variable, if that has a value
and, for the address of a server, the value is one of the web. To fill in once more changes nothing: where
a variable has given no value, it gives none again, and the address on which the server's description
depends is the same.

That a variable is not asked for cannot be seen in the settings that result. It is said of the inquiry that
leads to them (`result_inquiry`): the questions that it asks are listed in `asked_inquiry`, and the result
depends on the answers to those alone (`result_congr`).
-/

namespace ApiAtlas

/-! ## Inquiries -/

namespace Inquiry

variable {α β : Type} {lookup lookup' : String → Option String}

@[simp]
theorem result_pure (a : α) : (pure a : Inquiry α).result lookup = a := rfl

@[simp]
theorem asked_pure (a : α) : (pure a : Inquiry α).asked lookup = [] := rfl

@[simp]
theorem result_valueOf (name : String) : (valueOf name).result lookup = lookup name := rfl

@[simp]
theorem asked_valueOf (name : String) : (valueOf name).asked lookup = [name] := rfl

theorem result_bind (p : Inquiry α) (f : α → Inquiry β) :
    (p >>= f).result lookup = (f (p.result lookup)).result lookup := by
  induction p with
  | done a => rfl
  | ask name next ih => exact ih (lookup name)

theorem asked_bind (p : Inquiry α) (f : α → Inquiry β) :
    (p >>= f).asked lookup = p.asked lookup ++ (f (p.result lookup)).asked lookup := by
  induction p with
  | done a => rfl
  | ask name next ih => exact congrArg (name :: ·) (ih (lookup name))

theorem result_unlessSet (value : Option String) (p : Inquiry (Option String)) :
    (unlessSet value p).result lookup = value.or (p.result lookup) := by
  cases value with
  | none => rfl
  | some v => rfl

theorem asked_unlessSet (value : Option String) (p : Inquiry (Option String)) :
    (unlessSet value p).asked lookup = if value.isNone then p.asked lookup else [] := by
  cases value with
  | none => rfl
  | some v => rfl

theorem result_onlyIf (useful : Bool) (p : Inquiry (Option String)) :
    (onlyIf useful p).result lookup = if useful then p.result lookup else none := by
  cases useful with
  | false => rfl
  | true => rfl

theorem asked_onlyIf (useful : Bool) (p : Inquiry (Option String)) :
    (onlyIf useful p).asked lookup = if useful then p.asked lookup else [] := by
  cases useful with
  | false => rfl
  | true => rfl

/-- **Only the answers to its questions matter to an inquiry.** -/
theorem result_congr {p : Inquiry α} (h : ∀ name ∈ p.asked lookup, lookup' name = lookup name) :
    p.result lookup' = p.result lookup := by
  induction p with
  | done a => rfl
  | ask name next ih =>
    have hname : lookup' name = lookup name := h name List.mem_cons_self
    show (next (lookup' name)).result lookup' = (next (lookup name)).result lookup
    rw [hname]
    exact ih _ fun later hlater => h later (List.mem_cons_of_mem _ hlater)

end Inquiry

/-! ## Settings -/

/-- What can be set. -/
inductive Setting where
  | title
  | description
  | version
  | serverUrl
  | serverDescription
  | contentType
  | output

namespace Settings

open Inquiry (asked_bind asked_onlyIf asked_pure asked_unlessSet asked_valueOf result_bind
  result_onlyIf result_pure result_unlessSet result_valueOf)

variable {s : Settings} {lookup : String → Option String} {url : String}

/-- The value of a setting. -/
def get (s : Settings) : Setting → Option String
  | .title => s.title
  | .description => s.description
  | .version => s.version
  | .serverUrl => s.serverUrl
  | .serverDescription => s.serverDescription
  | .contentType => s.contentType
  | .output => s.output

/-- What is set stays as it is. -/
theorem get_fillFrom {x : Setting} {value : String} (h : s.get x = some value) :
    (s.fillFrom lookup).get x = some value := by
  cases x with
  | version =>
    have hversion : s.version = some value := h
    show ((s.version.or _).or _) = some value
    rw [hversion, Option.some_or, Option.some_or]
  | _ => exact Option.or_eq_some_iff.2 (.inl h)

/-- To fill in what is not set once more changes nothing. -/
theorem fillFrom_fillFrom (s : Settings) (lookup : String → Option String) :
    (s.fillFrom lookup).fillFrom lookup = s.fillFrom lookup := by
  have hagain : ∀ a b : Option String, (a.or b).or b = a.or b := by
    intro a b
    rw [Option.or_assoc, Option.or_self]
  have hversion : ∀ a b c : Option String, (((a.or b).or c).or b).or c = (a.or b).or c := by
    intro a b c
    cases a <;> cases b <;> cases c <;> rfl
  simp only [fillFrom, hagain, hversion]

theorem isWebAddress_iff : isWebAddress url = true
    ↔ "http://".toList <+: url.toList ∨ "https://".toList <+: url.toList := by
  rw [isWebAddress, Bool.or_eq_true, List.isPrefixOf_iff_prefix, List.isPrefixOf_iff_prefix]

/-- The address of the server is the one that is set or one of the web. -/
theorem serverUrl_fillFrom (h : (s.fillFrom lookup).serverUrl = some url) :
    s.serverUrl = some url ∨ (s.serverUrl = none ∧ lookup "TAILOR_SERVER_URL" = some url
      ∧ ("http://".toList <+: url.toList ∨ "https://".toList <+: url.toList)) := by
  have hor : s.serverUrl.or ((lookup "TAILOR_SERVER_URL").filter isWebAddress) = some url := h
  rcases Option.or_eq_some_iff.1 hor with hset | ⟨hunset, hfilter⟩
  · exact .inl hset
  · obtain ⟨hlookup, hweb⟩ := Option.filter_eq_some_iff.1 hfilter
    exact .inr ⟨hunset, hlookup, isWebAddress_iff.1 hweb⟩

/-! ## What is asked for -/

/-- All variables in the order of the questions, and whether there is a reason to ask for each. -/
def questions (s : Settings) (lookup : String → Option String) : List (String × Bool) :=
  [("TAILOR_SERVER_URL", s.serverUrl.isNone),
    ("TAILOR_SERVER_DESCRIPTION",
      s.serverDescription.isNone && (s.fillFrom lookup).serverUrl.isSome),
    ("TAILOR_TITLE", s.title.isNone),
    ("TAILOR_DESCRIPTION", s.description.isNone),
    ("TAILOR_VERSION", s.version.isNone),
    ("CARGO_PKG_VERSION", (s.version.or (lookup "TAILOR_VERSION")).isNone),
    ("TAILOR_CONTENT_TYPE", s.contentType.isNone),
    ("TAILOR_OPENAPI", s.output.isNone)]

/-- The inquiry leads to the same settings. -/
theorem result_inquiry (s : Settings) (lookup : String → Option String) :
    s.inquiry.result lookup = s.fillFrom lookup := by
  have hdescription : ∀ address : Option String,
      (if address.isSome then lookup "TAILOR_SERVER_DESCRIPTION" else none)
        = address.bind fun _ => lookup "TAILOR_SERVER_DESCRIPTION" := by
    intro address
    cases address <;> rfl
  simp only [inquiry, result_bind, result_unlessSet, result_onlyIf, hdescription, result_valueOf,
    result_pure]
  rfl

/-- The questions of the inquiry are those for which there is a reason. -/
theorem asked_inquiry (s : Settings) (lookup : String → Option String) :
    s.inquiry.asked lookup
      = (s.questions lookup).flatMap fun q => if q.2 then [q.1] else [] := by
  simp only [inquiry, asked_bind, asked_unlessSet, result_bind, result_unlessSet, asked_onlyIf,
    result_valueOf, result_pure, asked_valueOf, asked_pure, questions, List.flatMap_cons,
    List.flatMap_nil]
  cases s.serverDescription <;> rfl

/-- A variable is asked for if there is a reason. -/
theorem mem_asked_inquiry {name : String} :
    name ∈ s.inquiry.asked lookup ↔ (name, true) ∈ s.questions lookup := by
  rw [asked_inquiry, List.mem_flatMap]
  constructor
  · rintro ⟨⟨name', needed⟩, hq, hname⟩
    cases needed with
    | false => cases hname
    | true =>
      rw [List.mem_singleton.1 hname]
      exact hq
  · intro hq
    exact ⟨_, hq, List.mem_singleton_self _⟩

theorem asks_for_description_iff :
    "TAILOR_SERVER_DESCRIPTION" ∈ s.inquiry.asked lookup
      ↔ s.serverDescription = none ∧ (s.fillFrom lookup).serverUrl ≠ none := by
  rw [mem_asked_inquiry]
  simp [questions, Option.isSome_iff_ne_none]

/-- Variables that are not asked for have no influence. -/
theorem fillFrom_congr {lookup' : String → Option String}
    (h : ∀ name ∈ s.inquiry.asked lookup, lookup' name = lookup name) :
    s.fillFrom lookup' = s.fillFrom lookup := by
  rw [← result_inquiry, ← result_inquiry]
  exact Inquiry.result_congr h

/-! ## The document of the settings -/

/-- The server of a document is at the address that is set. -/
theorem servers_ofSettings (r : Settings) : (Document.ofSettings r).servers
    = (r.serverUrl.map fun url => ⟨url, unlessEmpty (r.serverDescription.getD "")⟩).toList := by
  unfold Document.ofSettings
  cases r.contentType.bind unlessEmpty <;> cases r.serverUrl <;> rfl

/-- **Fallbacks respect what is set.** Every setting that is made stays, and to fill in the others once
more changes nothing. The address of the server is the one that is set or a value that begins as addresses
of the web do. A description of the server is asked for only where none is set and there is an address, and
variables that are not asked for have no influence. A document of these settings has a server, namely the
one that they describe, if and only if there is an address. -/
theorem fallbacks_respect_settings (s : Settings) (lookup : String → Option String) :
    (∀ x value, s.get x = some value → (s.fillFrom lookup).get x = some value)
      ∧ (s.fillFrom lookup).fillFrom lookup = s.fillFrom lookup
      ∧ (∀ url, (s.fillFrom lookup).serverUrl = some url → s.serverUrl = some url
        ∨ (s.serverUrl = none ∧ lookup "TAILOR_SERVER_URL" = some url
          ∧ ("http://".toList <+: url.toList ∨ "https://".toList <+: url.toList)))
      ∧ s.inquiry.result lookup = s.fillFrom lookup
      ∧ ("TAILOR_SERVER_DESCRIPTION" ∈ s.inquiry.asked lookup
        ↔ s.serverDescription = none ∧ (s.fillFrom lookup).serverUrl ≠ none)
      ∧ (∀ lookup', (∀ name ∈ s.inquiry.asked lookup, lookup' name = lookup name) →
        s.fillFrom lookup' = s.fillFrom lookup)
      ∧ (Document.ofSettings (s.fillFrom lookup)).servers
        = ((s.fillFrom lookup).serverUrl.map fun url =>
          ⟨url, unlessEmpty ((s.fillFrom lookup).serverDescription.getD "")⟩).toList
      ∧ ((Document.ofSettings (s.fillFrom lookup)).servers ≠ []
        ↔ (s.fillFrom lookup).serverUrl ≠ none) := by
  refine ⟨fun x value => get_fillFrom, fillFrom_fillFrom s lookup, fun url => serverUrl_fillFrom,
    result_inquiry s lookup, asks_for_description_iff, fun lookup' => fillFrom_congr,
    servers_ofSettings _, ?_⟩
  rw [servers_ofSettings]
  cases (s.fillFrom lookup).serverUrl <;> simp

/-- An address that is not one of the web is no reason to ask for a description. -/
example : unset.fillFrom (fun name =>
    if name = "TAILOR_SERVER_URL" then some "ftp://files" else some "files")
      = ⟨some "files", some "files", some "files", none, none, some "files", some "files"⟩ := by
  decide

end Settings

end ApiAtlas

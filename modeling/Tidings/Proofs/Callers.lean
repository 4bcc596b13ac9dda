import Mathlib.Data.List.Forall2
import Tidings.Http.Identity
import Tidings.Proofs.Since
/-!
Who is calling, told by the headers. Only the first session header, the first user header and the cookie headers
count: a session header that can be read and is not blank goes before all cookies, the last cookie of the name
before earlier ones, and a user comes from the user header alone.
-/
namespace Tidings

/-- What is found from the end in what can be read of a list. -/
theorem find?_reverse_filterMap {α β : Type} (f : α → Option β) (p : β → Bool) (l : List α) (b : β) :
    (l.filterMap f).reverse.find? p = some b ↔ ∃ earlier a later, l = earlier ++ a :: later ∧ f a = some b ∧
      p b ∧ ∀ x ∈ later, ∀ y, f x = some y → ¬ p y := by
  rw [← List.filterMap_reverse, List.find?_filterMap, Option.bind_eq_some_iff]
  constructor
  · rintro ⟨a, ha, hb⟩
    obtain ⟨hpa, later, earlier, hl, hlater⟩ := List.find?_eq_some_iff_append.1 ha
    rw [hb, Option.any_some] at hpa
    refine ⟨earlier.reverse, a, later.reverse, ?_, hb, hpa, fun x hx y hy hpy => ?_⟩
    · rw [List.reverse_eq_iff.1 hl]
      simp
    · have hnot := hlater x (List.mem_reverse.1 hx)
      rw [hy, Option.any_some, hpy] at hnot
      cases hnot
  · rintro ⟨earlier, a, later, rfl, hb, hpb, hlater⟩
    refine ⟨a, List.find?_eq_some_iff_append.2 ⟨?_, later.reverse, earlier.reverse, by simp, ?_⟩, hb⟩
    · rw [hb, Option.any_some, hpb]
    · intro x hx
      cases hfx : f x with
      | none => rfl
      | some y => simpa using hlater x (List.mem_reverse.1 hx) y hfx

namespace Http.Identity

/-- The values of all headers of a name, in their order. -/
def valuesOf (name : String) (headers : List Header) : List String :=
  (headers.filter (isNamed name)).map Prod.snd

/-- The first header of a name gives a text: it can be read, and without the white space around it something
is left. -/
def Gives (headers : List Header) (name text : String) : Prop :=
  ∃ value, (valuesOf name headers).head? = some value ∧ isReadable value ∧
    Text.IsTrimmed value.toList text.toList ∧ text ≠ ""

/-- A part of a cookie header that is well formed: a name, the first equals sign and a value, both with white
space around and escaped, and the name not empty. -/
def IsCookie (part : List Char) (name value : String) : Prop :=
  ∃ before after rawName rawValue, part = before ++ '=' :: after ∧ '=' ∉ before ∧
    Text.IsTrimmed before rawName ∧ Text.IsTrimmed after rawValue ∧ rawName ≠ [] ∧
    Text.unescape? (String.ofList rawName) = some name ∧
    Text.unescape? (String.ofList rawValue) = some value

/-- The last cookie of a name in all cookie headers that can be read. -/
def IsLastCookie (headers : List Header) (name value : String) : Prop :=
  ∃ pieces, List.Forall₂ (fun (text : String) parts => Text.IsSplit ';' text.toList parts)
      ((valuesOf "cookie" headers).filter isReadable) pieces ∧
    ∃ earlier part later, pieces.flatten = earlier ++ part :: later ∧ IsCookie part name value ∧
      ∀ other ∈ later, ∀ value', ¬ IsCookie other name value'

/-- The session of a caller: from the session header, or else from a cookie that is not empty. -/
inductive NamesSession (headers : List Header) : String → Prop where
  | header {text : String} (h : Gives headers sessionHeader text) : NamesSession headers text
  | cookie {value : String} (hnone : ∀ text, ¬ Gives headers sessionHeader text)
    (h : IsLastCookie headers sessionCookie value) (hne : value ≠ "") : NamesSession headers value

theorem head?_valuesOf (name : String) (headers : List Header) :
    (valuesOf name headers).head? = (headers.find? (isNamed name)).map Prod.snd := by
  rw [valuesOf, List.head?_map, List.head?_filter]

theorem headerValue?_eq_some_iff {headers : List Header} {name text : String} :
    headerValue? headers name = some text ↔ Gives headers name text := by
  rw [headerValue?, Gives, head?_valuesOf]
  cases headers.find? (isNamed name) with
  | none => simp
  | some h =>
    simp only [Option.map_some, Option.some.injEq, exists_eq_left', Text.isTrimmed_iff, String.toList_inj]
    constructor
    · intro hsome
      split at hsome
      · next hboth =>
        cases hsome
        exact ⟨hboth.1, rfl, hboth.2⟩
      · cases hsome
    · rintro ⟨hreadable, rfl, hne⟩
      rw [if_pos ⟨hreadable, hne⟩]

theorem isTrimmed_trimChars {cs core : List Char} : Text.IsTrimmed cs core ↔ trimChars cs = core := by
  have htext : Text.IsTrimmed (String.ofList cs).toList core ↔ (Text.trim (String.ofList cs)).toList = core :=
    Text.isTrimmed_iff
  rwa [Text.trim, String.toList_ofList, String.toList_ofList] at htext

theorem cookie?_eq_some_iff {part : List Char} {name value : String} :
    cookie? part = some (name, value) ↔ IsCookie part name value := by
  constructor
  · intro h
    rw [cookie?] at h
    split at h
    · cases h
    next before after hcut =>
    obtain ⟨hpart, hbefore⟩ := Text.cut_eq_some hcut
    split at h
    · cases h
    next hne =>
    obtain ⟨n, hn, h⟩ := Option.bind_eq_some_iff.1 h
    obtain ⟨v, hv, h⟩ := Option.bind_eq_some_iff.1 h
    cases h
    exact ⟨before, after, _, _, hpart, hbefore, isTrimmed_trimChars.2 rfl, isTrimmed_trimChars.2 rfl, hne, hn, hv⟩
  · rintro ⟨before, after, rawName, rawValue, rfl, hbefore, hname, hvalue, hne, hn, hv⟩
    rw [isTrimmed_trimChars] at hname hvalue
    rw [cookie?, Text.cut_append hbefore]
    simp only [hname, hvalue, if_neg hne, hn, hv]
    rfl

/-- Texts fall into parts in one way. -/
theorem forall₂_isSplit {texts : List String} {pieces : List (List (List Char))} :
    List.Forall₂ (fun text parts => Text.IsSplit ';' text.toList parts) texts pieces ↔
      texts.map (fun text => Text.splitAll ';' text.toList) = pieces := by
  rw [← List.forall₂_eq_eq_eq, List.forall₂_map_left_iff]
  simp only [Text.splitAll_eq_iff]

theorem cookies_eq (headers : List Header) : cookies headers =
    (((valuesOf "cookie" headers).filter isReadable).map fun text =>
      Text.splitAll ';' text.toList).flatten.filterMap cookie? := by
  rw [cookies, valuesOf, List.filter_map, List.filter_filter, List.map_map, ← List.flatMap_def]
  congr 2
  refine List.filter_congr fun h _ => ?_
  exact Bool.and_comm _ _

theorem isLastCookie_iff {headers : List Header} {name value : String} :
    IsLastCookie headers name value ↔
      ((cookies headers).reverse.find? fun c => c.1 = name).map (·.2) = some value := by
  have hname : ((cookies headers).reverse.find? fun c => c.1 = name).map (·.2) = some value ↔
      (cookies headers).reverse.find? (fun c => c.1 = name) = some (name, value) := by
    rw [Option.map_eq_some_iff]
    constructor
    · rintro ⟨⟨n, v⟩, hc, rfl⟩
      have hn : n = name := by simpa using List.find?_some hc
      rw [hc, hn]
    · exact fun hc => ⟨_, hc, rfl⟩
  rw [hname, cookies_eq, find?_reverse_filterMap]
  simp only [IsLastCookie, forall₂_isSplit, exists_eq_left', cookie?_eq_some_iff, decide_eq_true_eq]
  refine exists_congr fun earlier => exists_congr fun part => exists_congr fun later => ?_
  refine and_congr_right fun _ => and_congr_right fun _ => ?_
  constructor
  · refine fun hlast => ⟨trivial, fun other hother c hc hn => hlast other hother c.2 ?_⟩
    rw [← hn]
    exact cookie?_eq_some_iff.1 hc
  · rintro ⟨_, hlast⟩ other hother value' hcookie
    exact hlast other hother (name, value') (cookie?_eq_some_iff.2 hcookie) rfl

theorem cookieValue?_eq_some_iff {headers : List Header} {name value : String} :
    cookieValue? headers name = some value ↔ IsLastCookie headers name value ∧ value ≠ "" := by
  rw [cookieValue?, Option.filter_eq_some_iff, ← isLastCookie_iff, decide_eq_true_eq]

/-- The session that is taken: what the session header gives, or else the last cookie. -/
theorem session_eq_some_iff {headers : List Header} {session : String} :
    (headerValue? headers sessionHeader <|> cookieValue? headers sessionCookie) = some session ↔
      NamesSession headers session := by
  cases hheader : headerValue? headers sessionHeader with
  | some text =>
    have hgives := headerValue?_eq_some_iff.1 hheader
    constructor
    · intro hsome
      cases hsome
      exact .header hgives
    · intro hnames
      cases hnames with
      | header h =>
        rw [← headerValue?_eq_some_iff, hheader] at h
        exact h
      | cookie hnone h hne => exact absurd hgives (hnone text)
  | none =>
    have hnot : ∀ text, ¬ Gives headers sessionHeader text := fun text h => by
      rw [← headerValue?_eq_some_iff, hheader] at h
      cases h
    constructor
    · intro hsome
      obtain ⟨hlast, hne⟩ := cookieValue?_eq_some_iff.1 hsome
      exact .cookie hnot hlast hne
    · intro hnames
      cases hnames with
      | header h => exact absurd h (hnot session)
      | cookie _ h hne => exact cookieValue?_eq_some_iff.2 ⟨h, hne⟩

theorem ofHeaders_eq_ok_iff {headers : List Header} {caller : Identity} : ofHeaders headers = .ok caller ↔
    NamesSession headers caller.session ∧ ∀ user, caller.user = some user ↔ Gives headers userHeader user := by
  simp only [← session_eq_some_iff, ← headerValue?_eq_some_iff]
  rw [ofHeaders]
  constructor
  · intro hok
    split at hok
    · next session hsession =>
      cases hok
      exact ⟨hsession, fun user => Iff.rfl⟩
    · cases hok
  · rintro ⟨hsession, huser⟩
    rw [hsession]
    obtain ⟨session, user⟩ := caller
    have heq : headerValue? headers userHeader = user := Option.ext fun u => (huser u).symm
    rw [heq]

theorem ofHeaders_eq_error_iff {headers : List Header} {fault : Fault} : ofHeaders headers = .error fault ↔
    fault = .invalidInput "missing session id" ∧ ∀ session, ¬ NamesSession headers session := by
  simp only [← session_eq_some_iff, ← Option.eq_none_iff_forall_ne_some]
  rw [ofHeaders]
  constructor
  · intro herror
    split at herror
    · cases herror
    · next hnone =>
      cases herror
      exact ⟨rfl, hnone⟩
  · rintro ⟨rfl, hnone⟩
    rw [hnone]

theorem headerValue?_congr {headers others : List Header} {name : String}
    (h : (valuesOf name others).head? = (valuesOf name headers).head?) :
    headerValue? others name = headerValue? headers name := by
  refine Option.ext fun text => ?_
  rw [headerValue?_eq_some_iff, headerValue?_eq_some_iff, Gives, Gives, h]

theorem cookieValue?_congr {headers others : List Header}
    (h : valuesOf "cookie" others = valuesOf "cookie" headers) (name : String) :
    cookieValue? others name = cookieValue? headers name := by
  rw [cookieValue?, cookieValue?, cookies_eq, cookies_eq, h]

/-- What a user or a session gives is not empty, so no address of a caller is. -/
theorem owner_ne_nothing {headers : List Header} {caller : Identity} (h : ofHeaders headers = .ok caller) :
    ∀ a ∈ caller.addresses, a.owner ≠ "" := by
  obtain ⟨hsession, huser⟩ := ofHeaders_eq_ok_iff.1 h
  have hsome : caller.session ≠ "" := by
    cases hsession with
    | header h =>
      obtain ⟨_, _, _, _, hne⟩ := h
      exact hne
    | cookie _ _ hne => exact hne
  intro a ha
  rw [addresses, List.mem_cons, Option.mem_toList, Option.map_eq_some_iff] at ha
  rcases ha with rfl | ⟨user, hu, rfl⟩
  · exact hsome
  · obtain ⟨_, _, _, _, hne⟩ := (huser user).1 hu
    exact hne

/-- The caller that headers tell of. Its session is what the session header gives, or else the value of the last
session cookie, and there is no caller without one; its user is what the user header gives. It listens to both
addresses, and neither is empty. Other headers do not count, nor do later ones of the first two names, nor
cookies when the session header gives a session; no cookie makes a user. -/
theorem caller_told_by_headers (headers : List Header) :
    (∀ caller, ofHeaders headers = .ok caller ↔
      NamesSession headers caller.session ∧ ∀ user, caller.user = some user ↔ Gives headers userHeader user) ∧
    (∀ fault, ofHeaders headers = .error fault ↔
      fault = .invalidInput "missing session id" ∧ ∀ session, ¬ NamesSession headers session) ∧
    (∀ caller, ofHeaders headers = .ok caller →
      caller.addresses = (match caller.user with
        | none => [⟨.session, caller.session⟩]
        | some user => [⟨.session, caller.session⟩, ⟨.user, user⟩]) ∧
      ∀ a ∈ caller.addresses, a.owner ≠ "") ∧
    (∀ others : List Header,
      (valuesOf sessionHeader others).head? = (valuesOf sessionHeader headers).head? →
      (valuesOf userHeader others).head? = (valuesOf userHeader headers).head? →
      (∃ text, Gives headers sessionHeader text) ∨ valuesOf "cookie" others = valuesOf "cookie" headers →
      ofHeaders others = ofHeaders headers) ∧
    ∀ (others : List Header) (caller caller' : Identity),
      (valuesOf userHeader others).head? = (valuesOf userHeader headers).head? →
      ofHeaders headers = .ok caller → ofHeaders others = .ok caller' → caller'.user = caller.user := by
  refine ⟨fun caller => ofHeaders_eq_ok_iff, fun fault => ofHeaders_eq_error_iff,
    fun caller hcaller => ⟨?_, owner_ne_nothing hcaller⟩, fun others hsession huser hcookies => ?_,
    fun others caller caller' huser hcaller hcaller' => ?_⟩
  · rw [addresses]
    cases caller.user <;> rfl
  · rw [ofHeaders, ofHeaders, headerValue?_congr hsession, headerValue?_congr huser]
    rcases hcookies with ⟨text, htext⟩ | hcookies
    · rw [headerValue?_eq_some_iff.2 htext]
      rfl
    · rw [cookieValue?_congr hcookies]
  · refine Option.ext fun user => ?_
    rw [(ofHeaders_eq_ok_iff.1 hcaller).2, (ofHeaders_eq_ok_iff.1 hcaller').2, Gives, Gives, huser]

/-- The session header is blank, and of two cookies the last counts, whose name and value are escaped. -/
example : ofHeaders [("X-User-Id", " u "), ("Cookie", "session_id=a; theme=dark"), ("x-session-id", " "),
    ("COOKIE", "session%5Fid=%62")] = .ok ⟨"b", some "u"⟩ := by cbv

end Http.Identity

end Tidings

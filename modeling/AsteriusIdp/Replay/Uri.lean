import AsteriusIdp.Replay.Message

/-!
# The normal form of a DPoP URI

A proof names the URI it was made for, so two spellings of one URI have to compare equal. In a
path an escape of an unreserved octet becomes the character, every other escape is written in
upper case, and a `%` that begins no escape becomes `%25`. A character outside ASCII is neither
`%` nor a digit: the loop over bytes is one over characters. The parser of URLs and the text of a
URL are parameters, and `Lawful` says what is assumed of them.

* `decodeUnreserved_canonical` : the normal forms stand for the paths of the same pieces.
-/

namespace AsteriusIdp.Dpop

open Fallible

/-- The value of a hexadecimal digit. -/
def hex (c : Char) : Option (Fin 16) :=
  if '0' ≤ c ∧ c ≤ '9' then some (Fin.ofNat 16 (c.toNat - '0'.toNat))
  else if 'a' ≤ c ∧ c ≤ 'f' then some (Fin.ofNat 16 (c.toNat - 'a'.toNat + 10))
  else if 'A' ≤ c ∧ c ≤ 'F' then some (Fin.ofNat 16 (c.toNat - 'A'.toNat + 10))
  else none

/-- RFC 3986: a letter, a digit or one of four marks. -/
def isUnreserved (c : Char) : Bool := c.isAlphanum || ['-', '.', '_', '~'].contains c

/-- The upper-case digit of a value. -/
def upper (n : Fin 16) : Char := "0123456789ABCDEF".toList.getD n '0'

/-- The octet an escape stands for. -/
def octet (high low : Fin 16) : Char := Char.ofNat (high * 16 + low)

/-- The normal form of a path. -/
def decodeUnreserved : List Char → List Char
  | [] => []
  | c :: rest =>
    if c ≠ '%' then c :: decodeUnreserved rest
    else match rest with
      | h :: l :: after =>
        match hex h, hex l with
        | some high, some low =>
          if isUnreserved (octet high low) then octet high low :: decodeUnreserved after
          else '%' :: upper high :: upper low :: decodeUnreserved after
        | _, _ => '%' :: '2' :: '5' :: decodeUnreserved (h :: l :: after)
      | short => '%' :: '2' :: '5' :: decodeUnreserved short

/-- The URL without query and fragment, at another path. -/
def atPath (url : Url) (host : String) (path : List Char) : String :=
  url.scheme ++ "://" ++ host ++ url.port.elim "" (fun port => s!":{port}") ++
    String.ofList (if path.head? = some '/' then path else '/' :: path)

/-- `NormalisedUri::parse`, over a parser of URLs and the text that a URL is turned into. -/
def parse (read : String → Option Url) (render : Url → String) (raw : String) :
    Except Replay.DpopError String := do
  refuseIf (2048 < raw.utf8ByteSize) .uriMismatch
  let parsed ← okOr (read raw) .uriMismatch
  refuseIf (parsed.scheme ≠ "http" ∧ parsed.scheme ≠ "https") .uriMismatch
  refuseIf (parsed.username ≠ "" ∨ parsed.password.isSome) .uriMismatch
  let host ← okOr parsed.host .uriMismatch
  let reparsed ← okOr (read (atPath parsed host (decodeUnreserved parsed.path.toList))) .uriMismatch
  let rendered := render reparsed
  refuseIf (2048 < rendered.utf8ByteSize) .uriMismatch
  return rendered

/-- What `parse` asks of a URL. -/
structure Web (url : Url) (host : String) : Prop where
  scheme : url.scheme = "http" ∨ url.scheme = "https"
  username : url.username = ""
  password : url.password = none
  host : url.host = some host

/-- What is assumed of the parser, about URLs of the web that it returns. -/
structure Lawful (read : String → Option Url) (render : Url → String) : Prop where
  /-- A URL is what its text is read as. -/
  read_render {raw host : String} {url : Url} (h : read raw = some url) (hweb : Web url host) :
    read (render url) = some url
  /-- Scheme, host, port and path are the text of a URL without query and fragment. -/
  render_eq {raw host : String} {url : Url} (h : read raw = some url) (hweb : Web url host)
    (hquery : url.query = none) (hfragment : url.fragment = none) :
    render url = atPath url host url.path.toList
  /-- At the normal form of its path a URL is read as one of the same host, and dot segments are
  all that can go from the path: it stays normal. -/
  normal_kept {raw host : String} {parsed url : Url} (h : read raw = some parsed)
    (hweb : Web parsed host)
    (hagain : read (atPath parsed host (decodeUnreserved parsed.path.toList)) = some url) :
    Web url host ∧ url.query = none ∧ url.fragment = none ∧
    decodeUnreserved url.path.toList = url.path.toList

/-- What a path is made of. -/
inductive Piece where
  | literal (c : Char)
  | escape (high low : Fin 16)
  deriving DecidableEq

/-- The pieces of a path; a `%` that begins no escape is a character. -/
def pieces : List Char → List Piece
  | [] => []
  | c :: rest =>
    if c ≠ '%' then .literal c :: pieces rest
    else match rest with
      | h :: l :: after =>
        match hex h, hex l with
        | some high, some low => .escape high low :: pieces after
        | _, _ => .literal '%' :: pieces (h :: l :: after)
      | short => .literal '%' :: pieces short

namespace Piece

/-- The characters of a piece. -/
def render : Piece → List Char
  | literal c => [c]
  | escape high low => ['%', upper high, upper low]

/-- An escape of an unreserved octet is decoded. -/
def decoded : Piece → Piece
  | literal c => literal c
  | escape high low =>
    if isUnreserved (octet high low) then literal (octet high low) else escape high low

/-- A bare `%` is escaped as well. -/
def normal (p : Piece) : Piece := if p.decoded = literal '%' then escape 2 5 else p.decoded

end Piece

open Piece

theorem ne_of_unreserved {c d : Char} (hc : isUnreserved c) (hd : isUnreserved d = false) :
    c ≠ d := by
  rintro rfl
  simp [hc] at hd

theorem isUnreserved_of_hex {c : Char} {n : Fin 16} (h : hex c = some n) : isUnreserved c := by
  simp only [hex, Char.le_def] at h
  simp only [isUnreserved, Char.isAlphanum, Char.isAlpha, Char.isUpper, Char.isLower, Char.isDigit]
  grind

theorem upper_spec (n : Fin 16) : hex (upper n) = some n ∧ isUnreserved (upper n) := by
  revert n
  decide

/-- A normal piece is a character other than `%` or an escape that has to stay one. -/
theorem normal_cases (p : Piece) :
    (∃ c ≠ '%', p.normal = literal c) ∨
      ∃ high low, isUnreserved (octet high low) = false ∧ p.normal = escape high low := by
  fun_cases decoded p with
  | case1 c => by_cases hc : c = '%' <;> simp [normal, decoded, hc]; decide
  | case2 high low hu =>
    have hne := ne_of_unreserved (d := '%') hu rfl
    simp [normal, decoded, hu, hne]
  | case3 high low hu => simp [normal, decoded, hu]

theorem pieces_cons {c : Char} (hc : c ≠ '%') (rest : List Char) :
    pieces (c :: rest) = literal c :: pieces rest := by
  rw [pieces.eq_def]
  simp [hc]

theorem decodeUnreserved_eq (path : List Char) :
    decodeUnreserved path = ((pieces path).map normal).flatMap render := by
  have hdig : upper 2 = '2' ∧ upper 5 = '5' := ⟨rfl, rfl⟩
  fun_induction decodeUnreserved path with
  | case1 => rfl
  | case2 c rest hc ih => simp [pieces_cons hc, normal, decoded, render, hc, ih]
  | case3 c h l hc after high low hl hh hu ih =>
    have hne := ne_of_unreserved (d := '%') hu rfl
    simp_all [pieces, normal, decoded, render]
  | case4 | case5 | case6 => simp_all [pieces, normal, decoded, render]

/-- The pieces of a normal form are read back. -/
theorem pieces_normal (ps : List Piece) :
    pieces ((ps.map normal).flatMap render) = ps.map normal := by
  induction ps with
  | nil => rfl
  | cons p ps ih =>
    rw [List.map_cons, List.flatMap_cons]
    obtain ⟨_, hc, h⟩ | ⟨_, _, -, h⟩ := normal_cases p
    · rw [h, render, List.singleton_append, pieces_cons hc, ih]
    · simp [h, render, pieces, upper_spec, ih]

theorem normal_normal (p : Piece) : p.normal.normal = p.normal := by
  obtain ⟨_, hc, h⟩ | ⟨_, _, hu, h⟩ := normal_cases p
  · rw [h]
    simp [normal, decoded, hc]
  · rw [h]
    simp [normal, decoded, hu]

/-- A `%` of a normal form begins an escape that has to stay one. -/
theorem percent_normal {ps : List Piece} {before after : List Char}
    (h : (ps.map normal).flatMap render = before ++ '%' :: after) :
    ∃ high low rest, after = upper high :: upper low :: rest ∧
    isUnreserved (octet high low) = false := by
  induction ps generalizing before with
  | nil => simp at h
  | cons p ps ih =>
    have hne (n : Fin 16) := ne_of_unreserved (d := '%') (upper_spec n).2 rfl
    obtain ⟨_, hc, hp⟩ | ⟨high, low, hu, hp⟩ := normal_cases p
    · obtain _ | ⟨_, before⟩ := before <;> simp [hp, render, hc] at h
      exact ih h.2
    · obtain _ | ⟨_, _ | ⟨_, _ | ⟨_, before⟩⟩⟩ := before <;>
        simp [hp, render, hne] at h
      · exact ⟨high, low, _, h.symm, hu⟩
      · exact ih h.2.2.2

/-- A delimiter stands in the normal form as often as in the path. -/
theorem count_decodeUnreserved {d : Char} (hd : isUnreserved d = false) (hne : d ≠ '%')
    (path : List Char) : (decodeUnreserved path).count d = path.count d := by
  have hu {c : Char} (hc : isUnreserved c) := ne_of_unreserved hc hd
  have h2 := hu (c := '2') rfl
  have h5 := hu (c := '5') rfl
  fun_induction decodeUnreserved path with
  | case1 => rfl
  | case2 | case5 | case6 => grind
  | case3 | case4 => grind [isUnreserved_of_hex, upper_spec]

theorem decodeUnreserved_idem (path : List Char) :
    decodeUnreserved (decodeUnreserved path) = decodeUnreserved path := by
  rw [decodeUnreserved_eq path, decodeUnreserved_eq, pieces_normal]
  simp [normal_normal, List.flatMap_map]

section

variable {read : String → Option Url} {render : Url → String}

theorem parse_ok {raw uri : String} :
    parse read render raw = .ok uri ↔ raw.utf8ByteSize ≤ 2048 ∧
    ∃ parsed host url, read raw = some parsed ∧ Web parsed host ∧
      read (atPath parsed host (decodeUnreserved parsed.path.toList)) = some url ∧
      (render url).utf8ByteSize ≤ 2048 ∧ render url = uri := by
  simp only [parse, bind_ok, refuseIf_ok, okOr_ok, pure_ok, Unique.exists_iff, not_lt,
    not_or, not_and_or, not_not, Option.not_isSome_iff_eq_none]
  constructor
  · rintro ⟨hraw, parsed, hrd, hsch, ⟨hu, hps⟩, host, hho, url, hurl, hlen, rfl⟩
    exact ⟨hraw, parsed, host, url, hrd, ⟨hsch, hu, hps, hho⟩, hurl, hlen, rfl⟩
  · rintro ⟨hraw, parsed, host, url, hrd, ⟨hsch, hu, hps, hho⟩, hurl, hlen, rfl⟩
    exact ⟨hraw, parsed, hrd, hsch, ⟨hu, hps⟩, host, hho, url, hurl, hlen, rfl⟩

/-- The URL of a normal form is read from it, and is at a normal path already. -/
theorem parse_again (hrd : Lawful read render) {raw uri : String}
    (h : parse read render raw = .ok uri) : parse read render uri = .ok uri := by
  obtain ⟨-, parsed, host, url, hpar, hweb, hurl, hlen, rfl⟩ := parse_ok.1 h
  obtain ⟨hweb', hque, hfr, hp⟩ := hrd.normal_kept hpar hweb hurl
  have hren := hrd.render_eq hurl hweb' hque hfr
  have hbk := hrd.read_render hurl hweb'
  refine parse_ok.2 ⟨hlen, url, host, url, hbk, hweb', ?_, hlen, rfl⟩
  rw [hp, ← hren, hbk]

/-- The normal form of a path is canonical; a `%` that begins no escape counts as `%25`. -/
theorem decodeUnreserved_canonical (hread : Lawful read render) (path other : List Char) :
    (∀ before after, decodeUnreserved path = before ++ '%' :: after →
      ∃ high low rest, after = upper high :: upper low :: rest ∧
      isUnreserved (octet high low) = false) ∧
    decodeUnreserved (decodeUnreserved path) = decodeUnreserved path ∧
    (∀ raw uri, parse read render raw = .ok uri → parse read render uri = .ok uri) ∧
    (decodeUnreserved path = decodeUnreserved other ↔
      (pieces path).map normal = (pieces other).map normal) ∧
    ∀ d, isUnreserved d = false → d ≠ '%' → (decodeUnreserved path).count d = path.count d := by
  refine ⟨fun before after h => percent_normal (decodeUnreserved_eq path ▸ h),
    decodeUnreserved_idem path, fun raw uri => parse_again hread, ⟨fun h => ?_, fun h => ?_⟩,
    fun d hd hne => count_decodeUnreserved hd hne path⟩
  · rw [decodeUnreserved_eq, decodeUnreserved_eq] at h
    simpa [pieces_normal] using congrArg pieces h
  · rw [decodeUnreserved_eq, decodeUnreserved_eq, h]

end

/-- A URL of `as.example`. -/
def endpoint (rest : String) : Url :=
  ⟨"https", "", none, some "as.example", none, "/" ++ rest, none, none, false⟩

/-- A parser that knows one host, in two spellings. -/
def readEndpoint (raw : String) : Option Url :=
  ((Text.stripStart "https://as.example/" raw).or (Text.stripStart "https://AS.EXAMPLE/" raw)).map
    endpoint

/-- The text of a URL of that host. -/
def renderEndpoint (url : Url) : String := atPath url "as.example" url.path.toList

theorem atPath_endpoint (other rest : String) :
    atPath (endpoint other) "as.example" (endpoint rest).path.toList =
      "https://as.example/" ++ rest := by
  simp [atPath, endpoint, ← String.toList_inj]

theorem lawful_readEndpoint : Lawful readEndpoint renderEndpoint := by
  have hrd (rest : String) :
      readEndpoint ("https://as.example/" ++ rest) = some (endpoint rest) := by
    simp [readEndpoint, Text.stripStart_append]
  refine ⟨?_, ?_, ?_⟩
  · intro raw host url h hweb
    obtain ⟨rest, -, rfl⟩ := Option.map_eq_some_iff.1 h
    rw [renderEndpoint, atPath_endpoint, hrd]
  · intro raw host url h hweb _ _
    obtain ⟨rest, -, rfl⟩ := Option.map_eq_some_iff.1 h
    cases hweb.host
    rfl
  · intro raw host parsed url h hweb haga
    obtain ⟨rest, -, rfl⟩ := Option.map_eq_some_iff.1 h
    cases hweb.host
    have hp : decodeUnreserved (endpoint rest).path.toList =
        (endpoint (String.ofList (decodeUnreserved rest.toList))).path.toList := by
      rw [endpoint, endpoint, String.toList_append, decodeUnreserved.eq_def]
      simp
    rw [hp, atPath_endpoint, hrd] at haga
    cases haga
    refine ⟨⟨.inr rfl, rfl, rfl, rfl⟩, rfl, rfl, ?_⟩
    rw [← hp, decodeUnreserved_idem]

theorem decodeUnreserved_canonical_endpoint :
    parse readEndpoint renderEndpoint "https://AS.EXAMPLE/%7eada%2f" =
      .ok "https://as.example/~ada%2F" ∧
    parse readEndpoint renderEndpoint "https://as.example/~ada%2F" =
      .ok "https://as.example/~ada%2F" ∧
    decodeUnreserved "/%7eada%2f".toList = decodeUnreserved "/~ada%2F".toList ∧
    (decodeUnreserved "/%7eada%2f".toList).count '/' = 1 := by
  have hfir : parse readEndpoint renderEndpoint "https://AS.EXAMPLE/%7eada%2f" =
      .ok "https://as.example/~ada%2F" := by
    decide +kernel
  obtain ⟨-, -, hpar, hiff, hcou⟩ :=
    decodeUnreserved_canonical lawful_readEndpoint "/%7eada%2f".toList "/~ada%2F".toList
  exact ⟨hfir, hpar _ _ hfir, hiff.2 (by decide +kernel),
    (hcou '/' (by decide) (by decide)).trans (by decide)⟩

/-- `%` and `%25` differ also after decoding and upper-casing, and have one normal form. -/
theorem stray_percent :
    decodeUnreserved ['%'] = decodeUnreserved ['%', '2', '5'] ∧
    ((pieces ['%']).map decoded).flatMap render ≠
      ((pieces ['%', '2', '5']).map decoded).flatMap render := by
  decide

end AsteriusIdp.Dpop

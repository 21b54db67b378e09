import BinderDownload.Lib.Text

namespace BinderDownload.Http

open Text

structure Url where
  scheme : Bytes
  host : Bytes
  port : Bytes
  target : Bytes
  deriving DecidableEq

def Url.hostHeader (url : Url) : Bytes :=
  let isDefault := (url.scheme = ascii "http" ∧ url.port = ascii "80") ∨
    (url.scheme = ascii "https" ∧ url.port = ascii "443")
  let literalV6 := (find 58 url.host).isSome
  let bare := if literalV6 then ascii "[" ++ url.host ++ ascii "]" else url.host
  if isDefault then bare else bare ++ ascii ":" ++ url.port

def Url.toString (url : Url) : Bytes := url.scheme ++ ascii "://" ++ url.hostHeader ++ url.target

def splitHostPort (authority : Bytes) : Option (Bytes × Bytes) :=
  if authority.head? = some 91 then
    match find 93 authority with
    | none => none
    | some close =>
      let host := (authority.take close).drop 1
      let rest := authority.drop (close + 1)
      some (host, if rest.head? = some 58 then rest.drop 1 else [])
  else
    match rfind 58 authority with
    | none => some (authority, [])
    | some colon => some (authority.take colon, authority.drop (colon + 1))

def parseUrl (text : Bytes) : Option Url := do
  let input := trim text
  let schemeEnd ← findText (ascii "://") input
  let scheme := toLower (input.take schemeEnd)
  guard (scheme = ascii "http" ∨ scheme = ascii "https")
  let rest := input.drop (schemeEnd + 3)
  let authorityEnd := (findFirstOf (ascii "/?#") rest).getD rest.length
  let authority := rest.take authorityEnd
  let authority := match rfind 64 authority with
    | none => authority
    | some pos => authority.drop (pos + 1)
  guard (authority ≠ [])
  let (host, port) ← splitHostPort authority
  guard (host ≠ [])
  let port := if port = [] then (if scheme = ascii "https" then ascii "443" else ascii "80") else port
  guard (port.all (isDigit 10))
  let target := if authorityEnd < rest.length then rest.drop authorityEnd else ascii "/"
  let target := if target.head? = some 47 then target else ascii "/" ++ target
  let target := match find 35 target with
    | none => target
    | some fragment => target.take fragment
  return { scheme, host, port, target }

def resolveRedirect (base : Url) (location : Bytes) : Bytes :=
  let target := trim location
  if target = [] then []
  else if (findText (ascii "://") target).isSome then target
  else if target.head? = some 47 then Url.toString { base with target }
  else
    let dir := match rfind 47 base.target with
      | none => ascii "/"
      | some lastSlash => base.target.take (lastSlash + 1)
    Url.toString { base with target := dir ++ target }

example : parseUrl (ascii " HTTP://u@h:8080/a?b#c ") =
    some ⟨ascii "http", ascii "h", ascii "8080", ascii "/a?b"⟩ := by decide

end BinderDownload.Http

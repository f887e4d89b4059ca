import Switchboard.Text.Blank
import Switchboard.Text.LowerCase

/-!
# Which hosts are called through a proxy

* `Proxy.host` : the host of a URL;
* `Proxy.ruleCovers`, `Proxy.isExempt` : hosts that are called without the proxy;
* `Proxy.decide` : how the service at a URL is called.
-/

namespace Switchboard.Proxy

/-- What follows the first `://`, or the whole text. -/
def afterScheme (cs : List Char) : List Char := (find? cs).getD cs
where
  /-- What follows the first `://`. -/
  find? : List Char → Option (List Char)
    | ':' :: '/' :: '/' :: rest => some rest
    | _ :: rest => find? rest
    | [] => none

/-- What follows the last `@`, or the whole text. -/
def afterUser (cs : List Char) : List Char :=
  (cs.reverse.takeWhile (· ≠ '@')).reverse

/-- The host of a URL: between the user and the port, or in brackets. -/
def host (url : String) : String :=
  let authority := afterUser ((afterScheme url.toList).takeWhile (· ≠ '/'))
  String.ofList <| match authority with
    | '[' :: _ => (authority.takeWhile (· ≠ ']')).dropWhile (· = '[')
    | _ => authority.takeWhile (· ≠ ':')

/-- Whether a rule covers a host, both in lower case: `*.x` covers what lies below `x`, `.x` covers
`x` and what lies below it, and any other rule covers one host. -/
def ruleCovers (rule host : List Char) : Bool :=
  match rule with
  | '*' :: '.' :: domain => ('.' :: domain).isSuffixOf host
  | '.' :: domain => host = domain || ('.' :: domain).isSuffixOf host
  | _ => host = rule

/-- A rule without blanks around it, in lower case. -/
def normalize (rule : String) : List Char := (Text.lower (Text.trim rule)).toList

/-- Whether a host is called without the proxy; blank rules cover nothing. -/
def isExempt (host : String) (rules : List String) : Bool :=
  let host := (Text.lower host).toList
  rules.any fun rule =>
    let rule := normalize rule
    !rule.isEmpty && ruleCovers rule host

/-- How a service is called. -/
inductive Decision where
  | throughProxy (proxy : String)
  /-- Without any proxy, those of the environment included. -/
  | direct
  /-- As the environment says. -/
  | unspecified
  deriving DecidableEq, Repr, Inhabited

/-- How the service at a URL is called. -/
def decide (proxy : Option String) (rules : List String) (url : String) : Decision :=
  match proxy with
  | none => .unspecified
  | some proxy =>
    let proxy := Text.trim proxy
    if proxy.isEmpty then .unspecified
    else if isExempt (host url) rules then .direct
    else .throughProxy proxy

end Switchboard.Proxy

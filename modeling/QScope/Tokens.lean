import QScope.Positions

/-! # Tokens: kinds, lexical errors, reserved words -/
namespace QScope

inductive Kind
  | identifier | keyword | number | character | string | symbol
  | operator | iterator | colon | doubleColon | amend
  | openParen | closeParen | openBracket | closeBracket | openBrace | closeBrace | semicolon
  | command
deriving DecidableEq

namespace Kind

def label : Kind → Text
  | identifier => "IDENTIFIER".toList
  | keyword => "KEYWORD".toList
  | number => "NUMBER_LIT".toList
  | character => "CHAR_LIT".toList
  | string => "STRING_LIT".toList
  | symbol => "SYMBOL_LIT".toList
  | operator => "OPERATOR".toList
  | iterator => "ITERATOR".toList
  | colon => "COLON".toList
  | doubleColon => "DOUBLE_COLON".toList
  | amend => "AMEND_OP".toList
  | openParen => "LPAREN".toList
  | closeParen => "RPAREN".toList
  | openBracket => "LBRACKET".toList
  | closeBracket => "RBRACKET".toList
  | openBrace => "LBRACE".toList
  | closeBrace => "RBRACE".toList
  | semicolon => "SEMICOLON".toList
  | command => "COMMAND".toList

/-- Colons, plain, doubled or joined to an operator, stand between a target and its value. -/
def isAssign : Kind → Bool
  | colon | doubleColon | amend => true
  | _ => false

def isCloser : Kind → Bool
  | closeParen | closeBracket | closeBrace => true
  | _ => false

end Kind

inductive LexicalError | unterminatedString | invalidNumber | unexpectedCharacter
deriving DecidableEq

namespace LexicalError

def code : LexicalError → Text
  | unterminatedString => "E101".toList
  | invalidNumber => "E102".toList
  | unexpectedCharacter => "E103".toList

def message : LexicalError → Text
  | unterminatedString => "unterminated string literal".toList
  | invalidNumber => "invalid numeric literal".toList
  | unexpectedCharacter => "unexpected character".toList

end LexicalError

/-- A piece of a text with its place in it; the index counts the tokens before it. -/
structure Token where
  kind : Kind
  image : Text
  span : Span
  index : Nat
  error : Option LexicalError
deriving DecidableEq

/-- A token at the left margin opens a statement, unless it closes a bracket. -/
def Token.startsStatement (t : Token) : Bool := t.span.start.column == 1 && !t.kind.isCloser

namespace Keywords

def all : List Text := [
  "abs","acos","aj","aj0","ajf","ajf0","all","and","any","asc","asin","asof","atan","attr","avg",
  "avgs","bin","binr","by","ceiling","cols","cor","cos","count","cov","cross","csv","cut","delete",
  "deltas","desc","dev","differ","distinct","div","do","dsave","each","ej","ema","enlist","eval",
  "except","exec","exit","exp","fby","fills","first","fkeys","flip","floor","from","get","getenv",
  "group","gtime","hclose","hcount","hdel","hopen","hsym","iasc","idesc","if","ij","ijf","in",
  "insert","inter","inv","key","keys","last","like","lj","ljf","load","log","lower","lsq","ltime",
  "ltrim","mavg","max","maxs","mcount","md5","mdev","med","meta","min","mins","mmax","mmin","mmu",
  "mod","msum","neg","next","not","null","or","over","parse","peach","pj","prd","prds","prev",
  "prior","rand","rank","ratios","raze","read0","read1","reciprocal","reval","reverse","rload",
  "rotate","rsave","rtrim","save","scan","scov","sdev","select","set","setenv","show","signum",
  "sin","sqrt","ss","ssr","string","sublist","sum","sums","sv","svar","system","tables","tan","til",
  "trim","type","uj","ujf","ungroup","union","update","upper","upsert","value","var","view","views",
  "vs","wavg","where","while","within","wj","wj1","wsum","ww","xasc","xbar","xcol","xcols","xdesc",
  "xexp","xgroup","xkey","xlog","xprev","xrank"].map String.toList

/-- Words that open the column list of a query, which `from` closes. -/
def queries : List Text := ["select","exec","update","delete"].map String.toList

end Keywords
end QScope

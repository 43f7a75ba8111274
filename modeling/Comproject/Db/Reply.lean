/-
Comproject.Db.Reply — the reply half of the Redis wrapper: `db::Reply` of
`include/db/cache_handle.h`, built from the `redisReply` trees of
`include/hiredis/hiredis.h`.

hiredis hands back a tree of C structs. A node's `type` says which of its
fields mean anything: `str` with `len` for the three string kinds,
`integer` for integers, `element` with `elements` for arrays. The
constructor `Reply(const redisReply *)` walks that tree and copies it
into value types.

The C side is modelled with its pointers. `RedisReply.null` is the null
pointer, `str` is the bytes readable from the `char *` on (`none` when it
is null), and `element` is the pointer array. The constructor can
therefore fail: `none` is an execution that reads outside these objects.
On the trees hiredis builds (`RedisReply.WellFormed`) it never does, and
what it copies there is the subject of `Comproject.Db.ReplyTheorems`.
-/
import Comproject.Lib.CString

namespace Comproject.Db

/-! ## Reply types -/

def redisReplyString : Int32 := 1
def redisReplyArray : Int32 := 2
def redisReplyInteger : Int32 := 3
def redisReplyNil : Int32 := 4
def redisReplyStatus : Int32 := 5
def redisReplyError : Int32 := 6

/-- The three types whose payload is `str`: the labels that share one
branch of the constructor's `switch`. -/
def isStringType (type : Int32) : Prop :=
  type = redisReplyString ∨ type = redisReplyStatus ∨ type = redisReplyError

instance (type : Int32) : Decidable (isStringType type) :=
  inferInstanceAs (Decidable (_ ∨ _ ∨ _))

/-! ## The trees of hiredis -/

/-- A `redisReply *`. -/
inductive RedisReply where
  | null
  | node (type : Int32) (integer : Int64) (len : Nat) (str : Option (List UInt8))
      (elements : Nat) (element : List RedisReply)

/-- The `len` payload bytes of a string node. -/
def payload (len : Nat) (str : Option (List UInt8)) : List UInt8 :=
  (str.getD []).take len

/-- `str` points to `len` bytes and one terminating zero byte after them. -/
def terminatedAt (len : Nat) (str : Option (List UInt8)) : Prop :=
  ∃ s, str = some s ∧ s.drop len = [0]

mutual

/-- What hiredis 0.11 promises of a non-null reply: a known type, a
terminated payload, and as many non-null elements as it announces. -/
def RedisReply.WellFormed : RedisReply → Prop
  | .null => False
  | .node type _ len str elements element =>
      (isStringType type ∧ terminatedAt len str)
      ∨ type = redisReplyInteger
      ∨ (type = redisReplyArray ∧ elements = element.length
          ∧ RedisReply.AllWellFormed element)
      ∨ type = redisReplyNil

def RedisReply.AllWellFormed : List RedisReply → Prop
  | [] => True
  | r :: rs => r.WellFormed ∧ RedisReply.AllWellFormed rs

end

mutual

/-- No string payload anywhere in the tree holds a zero byte. -/
def RedisReply.ZeroFree : RedisReply → Prop
  | .null => True
  | .node type _ len str _ element =>
      (isStringType type → 0 ∉ payload len str)
      ∧ (type = redisReplyArray → RedisReply.AllZeroFree element)

def RedisReply.AllZeroFree : List RedisReply → Prop
  | [] => True
  | r :: rs => r.ZeroFree ∧ RedisReply.AllZeroFree rs

end

mutual

/-- Two trees carry the same content: the same type at every node and the
same value in the fields that type uses. The other fields are free. -/
def RedisReply.SameContent : RedisReply → RedisReply → Prop
  | .node type integer len str _ element, .node type' integer' len' str' _ element' =>
      type = type'
      ∧ (isStringType type → payload len str = payload len' str')
      ∧ (type = redisReplyInteger → integer = integer')
      ∧ (type = redisReplyArray → RedisReply.AllSameContent element element')
  | .null, .null => True
  | _, _ => False

def RedisReply.AllSameContent : List RedisReply → List RedisReply → Prop
  | [], [] => True
  | r :: rs, r' :: rs' => r.SameContent r' ∧ RedisReply.AllSameContent rs rs'
  | _, _ => False

end

/-! ## `Reply` -/

/-- `db::Reply`, a reply with value semantics. -/
structure Reply where
  type_ : Int32
  integer_ : Int64
  str_ : List UInt8
  elements_ : List Reply

mutual

/-- `Reply::Reply(const redisReply *)`. `std::string(reply->str)` reads a
C string: `reply->len` is not looked at. -/
def Reply.ofRedisReply : RedisReply → Option Reply
  | .null => some ⟨redisReplyError, 0, [], []⟩
  | .node type integer _ str elements element =>
      if isStringType type then
        (str.bind CString.read?).map (fun s => ⟨type, 0, s, []⟩)
      else if type = redisReplyInteger then
        some ⟨type, integer, [], []⟩
      else if type = redisReplyArray then
        (Reply.pushElements elements element).map (fun es => ⟨type, 0, [], es⟩)
      else
        some ⟨type, 0, [], []⟩

/-- The loop `for (i = 0; i < elements; i++) elements_.push_back(element[i])`:
each pointer is converted by the constructor on its way in. -/
def Reply.pushElements : Nat → List RedisReply → Option (List Reply)
  | 0, _ => some []
  | _ + 1, [] => none
  | n + 1, r :: rs =>
      (Reply.ofRedisReply r).bind (fun e =>
        (Reply.pushElements n rs).map (fun es => e :: es))

end

mutual

/-- A lossless deep copy: the type is kept, the field that the type uses
holds the node's value, and the others hold their defaults. -/
def Reply.Faithful : RedisReply → Reply → Prop
  | .null, _ => False
  | .node type integer len str elements element, reply =>
      reply.type_ = type
      ∧ reply.str_ = (if isStringType type then payload len str else [])
      ∧ reply.integer_ = (if type = redisReplyInteger then integer else 0)
      ∧ (if type = redisReplyArray then
          reply.elements_.length = elements ∧ Reply.AllFaithful element reply.elements_
        else reply.elements_ = [])

def Reply.AllFaithful : List RedisReply → List Reply → Prop
  | [], [] => True
  | r :: rs, e :: es => Reply.Faithful r e ∧ Reply.AllFaithful rs es
  | _, _ => False

end

end Comproject.Db

import YoinkCore.Domain.Network
import YoinkCore.Lib.Table

/-!
# Tables of the statistics

What the analytics of a chat read: its messages, its reactions and its members.
-/

namespace YoinkCore.Stats

open Lib
open Domain (i64Max)

/-- `Error` -/
inductive StatsError where
  | database | forbidden | invalid | unavailable | search | session
deriving DecidableEq

def i64Min : Int := -2 ^ 63

/-- The values of a column of 64 bits. -/
def isI64 (n : Int) : Bool := i64Min ≤ n && n ≤ i64Max

/-- The numbers that the tables give their rows. -/
def isRowId (n : Int) : Bool := -2 ^ 31 ≤ n && n ≤ 2 ^ 31 - 1

/-- stats_messages, as far as the analytics read it -/
structure Message where
  id : Int
  messageId : Int
  chatId : Int
  date : Int
  fromUser : Option Int
  replyToMessage : Option Int
  text : Option String
  caption : Option String
  msgType : String
  newChatTitle : Option String
deriving DecidableEq

def Message.checks (m : Message) : List Bool := [
  isRowId m.id,
  isI64 m.messageId,
  isI64 m.chatId,
  isI64 m.date,
  m.fromUser.all isI64,
  m.replyToMessage.all isI64,
  m.msgType.length ≤ 32,
  m.newChatTitle.all (·.length ≤ 256)]

def messageSchema : Schema Message where
  check m := m.checks.all id
  clash a b := a.id = b.id || (a.chatId = b.chatId && a.messageId = b.messageId)

theorem messageSchema_id {a b : Message} (h : messageSchema.clash a b = false) : a.id ≠ b.id := by
  intro he
  simp [messageSchema, he] at h

theorem date_bounds {T : Table messageSchema} {m : Message} (hm : m ∈ T.rows) :
    i64Min ≤ m.date ∧ m.date ≤ i64Max := by
  have h := T.checked m hm
  simp only [messageSchema, Message.checks, List.all_cons, Bool.and_eq_true, id, isI64,
    decide_eq_true_eq] at h
  exact h.2.2.2.1

end YoinkCore.Stats

import ApiContract.Json.Basic

namespace ApiContract.Primitive

def keyword? (name : String) : Option String :=
  if ["String", "str", "char"].contains name then some "string"
  else if ["f32", "f64"].contains name then some "number"
  else if name = "bool" then some "boolean"
  else if ["i8", "i16", "i32", "i64", "i128", "isize", "u8", "u16", "u32", "u64", "u128",
    "usize"].contains name then
    some "integer"
  else none

def sample (keyword : String) : Json :=
  if keyword = "integer" then .number (.int 0)
  else if keyword = "number" then .number (.float 0)
  else if keyword = "boolean" then .bool false
  else .string "string"

end ApiContract.Primitive
